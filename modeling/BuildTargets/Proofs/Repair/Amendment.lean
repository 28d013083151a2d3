/-
  BuildTargets/Proofs/Repair/Amendment.lean
  =========================================
  **What a fix leaves as it was in the service.**

  Whatever a fix comes to, and however far it gets, it *amends* the containers that
  it is for: requests are made for these only, all others are as they were, and of
  the amended ones only devices have changed, each for a reason that the host gives
  (`Amends`).  A fix of all build targets is for the containers with both tags, and
  a fix of one container for that container, target or not (`fix_amends`).
-/
import BuildTargets.Proofs.Repair.Rounds

namespace BuildTargets.Repair

open BuildTargets

variable {ctx : Context} {mode : Mode} {host : HostView} {seeker : String} {r : Repair Store}
  {t t' t'' : Tree} {w w' w'' : World Store}

/-! ### Amendments -/

/-- A container goes from some devices to others while the tree goes from `t` to
    `t'`.  What is lost or replaced may be lost, as the tree was at first; what is new
    may be gained, as the tree is at the end. -/
structure AmendsDevices (host : HostView) (t t' : Tree) (devices devices' : Dict String Device) :
    Prop where
  lost : ∀ k d, devices.get? k = some d → devices'.get? k ≠ some d → MayLose host t k d
  gained : ∀ k d, devices'.get? k = some d → devices.get? k ≠ some d → MayGain host t' k

theorem AmendsDevices.refl (host : HostView) (t t' : Tree) (devices : Dict String Device) :
    AmendsDevices host t t' devices devices where
  lost := fun _ _ hd hlost => absurd hd hlost
  gained := fun _ _ hd hnew => absurd hd hnew

theorem AmendsDevices.trans {m : Nat} {devices devices' devices'' : Dict String Device}
    (h : AmendsDevices host t t' devices devices') (h' : AmendsDevices host t' t'' devices' devices'')
    (hg : t.Grows m t') (hg' : t'.Grows m t'') : AmendsDevices host t t'' devices devices'' where
  lost := by
    intro k d hd hlost
    by_cases hmid : devices'.get? k = some d
    · exact (h'.lost k d hmid hlost).back hg
    · exact h.lost k d hd hmid
  gained := by
    intro k d hd hnew
    by_cases hmid : devices'.get? k = some d
    · exact (h.gained k d hmid hnew).grows hg'
    · exact h'.gained k d hd hmid

/-- From `w` to `w'` some containers have been amended. -/
structure Amends (host : HostView) (Owns : String → Prop) (w w' : World Store) : Prop where
  tree : w.tree.Grows accessibleMode w'.tree
  /-- Every request that has been made names one of them. -/
  asked : w.service.MakesOnly (fun request => Owns request.container) w'.service
  /-- Everything else is exactly as before. -/
  others : ∀ n, ¬Owns n → w'.stored? n = w.stored? n
  /-- Every container is still there and has kept all but its devices. -/
  kept : ∀ n c, w.stored? n = some c → ∃ devices,
    w'.stored? n = some { c with devices := devices } ∧
      AmendsDevices host w.tree w'.tree c.devices devices
  none_new : ∀ n, w.stored? n = none → w'.stored? n = none

namespace Amends

variable {Owns : String → Prop}

theorem refl (host : HostView) (Owns : String → Prop) (w : World Store) : Amends host Owns w w where
  tree := .refl ..
  asked := .of_requests_eq rfl
  others := fun _ _ => rfl
  kept := fun _ c hc => ⟨c.devices, hc, .refl ..⟩
  none_new := fun _ hnone => hnone

theorem trans (h : Amends host Owns w w') (h' : Amends host Owns w' w'') :
    Amends host Owns w w'' where
  tree := h.tree.trans h'.tree
  asked := h.asked.trans h'.asked
  others := fun n hn => (h'.others n hn).trans (h.others n hn)
  kept := by
    intro n c hc
    obtain ⟨devices, hc', hamends⟩ := h.kept n c hc
    obtain ⟨devices', hc'', hamends'⟩ := h'.kept n _ hc'
    exact ⟨devices', hc'', hamends.trans hamends' h.tree h'.tree⟩
  none_new := fun n hnone => h'.none_new n (h.none_new n hnone)

/-- What is done under the warrants of a container that is as it was listed amends
    that container. -/
theorem of_alters {c : Container} (h : Alters host c w w') (howns : Owns c.name)
    (hc : w.stored? c.name = some c) : Amends host Owns w w' where
  tree := h.onward.tree
  asked := by
    refine h.heeds.asked.mono fun request hwarrant => ?_
    rw [hwarrant.container]
    exact howns
  others := fun n hn => h.others fun heq => hn (heq ▸ howns)
  kept := by
    intro n c₀ hc₀
    obtain ⟨devices, hc', hlost, hgained⟩ := h.heeds.edited hc₀
    refine ⟨devices, hc', fun k d hd hgone => ?_, fun k d hd hnew => ?_⟩
    · have hwarrant := hlost k d hd hgone
      have hn : n = c.name := hwarrant.container
      subst hn
      -- the container has the devices that the repair goes by
      have hsame : c₀ = c := Option.some.inj (hc₀.symm.trans hc)
      rw [hsame] at hd
      exact hwarrant.mayLose hd
    · exact (hgained k d hd hnew).mayGain
  none_new := fun _ hnone => h.onward.none_new hnone

end Amends

/-! ### Runs of repairs -/

variable {Owns : String → Prop}

theorem amends_forM (hr : r ∈ standard seeker) {l : List Container} (h : IsCurrent l w)
    (howns : ∀ c ∈ l, Owns c.name) :
    Amends ctx.host Owns w (stateOf ((l.forM (r.run ctx mode)).run w)) := by
  induction l generalizing w with
  | nil => exact .refl ctx.host Owns w
  | cons c rest ih =>
    have halters := alters_run hr ctx mode c w
    have hamends : Amends ctx.host Owns w (stateOf ((r.run ctx mode c).run w)) :=
      .of_alters halters (howns c List.mem_cons_self) (h.stored c List.mem_cons_self)
    rw [run_forM_cons]
    cases hrun : (r.run ctx mode c).run w with
    | error e w' =>
      rw [hrun] at hamends
      exact hamends
    | ok u w' =>
      rw [hrun] at halters hamends
      exact hamends.trans (ih (h.after halters) fun c' hc' => howns c' (List.mem_cons_of_mem _ hc'))

/-- A container with both tags is stored under a name. -/
def NamesTarget (w : World Store) (n : String) : Prop :=
  ∃ c, w.stored? n = some c ∧ c.config.contains Container.architectureTag = true ∧
    c.config.contains Container.frameworkTag = true

theorem namesTarget_of_onward {w₀ : World Store} (hkeyed : w₀.service.IsKeyed) (hon : w₀.Onward w)
    {c : Container} (hc : c ∈ targetsOf w.service) : NamesTarget w₀ c.name := by
  have hstored : w.stored? c.name = some c := get?_of_mem_targets (hon.keyed hkeyed) hc
  obtain ⟨c₀, devices, hc₀, hsame⟩ := hon.stored_back hstored
  have htags := isTarget_iff.mp (mem_targetsOf_iff.mp hc).2
  rw [hsame] at htags
  exact ⟨c₀, hc₀, htags⟩

theorem amends_onTargets (hr : r ∈ standard seeker) {w₀ : World Store}
    (hkeyed : w₀.service.IsKeyed) (hon : w₀.Onward w) :
    Amends ctx.host (NamesTarget w₀) w (stateOf ((r.onTargets ctx mode).run w)) := by
  rw [run_onTargets]
  split
  · exact .refl ctx.host _ w
  · exact amends_forM hr (isCurrent_targets (hon.keyed hkeyed)) fun c hc =>
      namesTarget_of_onward hkeyed hon hc

theorem amends_onContainer (hr : r ∈ standard seeker) (hkeyed : w.service.IsKeyed)
    (name : String) :
    Amends ctx.host (· = name) w (stateOf ((r.onContainer ctx mode name).run w)) := by
  rw [run_onContainer]
  split
  · exact .refl ctx.host _ w
  · split
    · next c hc =>
      have hname : c.name = name := hkeyed name c hc
      rw [← hname] at hc
      exact .of_alters (alters_run hr ctx mode c w) hname hc
    · exact .refl ctx.host _ w

/-- Repairs that amend amend one after the other, if they are begun at all. -/
theorem amends_repairs {w₀ : World Store} {f : Repair Store → Action (World Store) Unit}
    (hon : ∀ r ∈ standard seeker, GoesOnward (f r))
    (hf : ∀ r ∈ standard seeker, ∀ w, w₀.Onward w →
      Amends host Owns w (stateOf ((f r).run w))) (allowed : Except Failure Unit) :
    Amends host Owns w₀ (stateOf ((do
      MonadExcept.ofExcept allowed
      (standard seeker).forM f : Action (World Store) Unit).run w₀)) := by
  let R (w₁ w₂ : World Store) : Prop :=
    w₀.Onward w₁ → w₀.Onward w₂ ∧ Amends host Owns w₁ w₂
  have hrefl (w₁ : World Store) : R w₁ w₁ := fun hon₁ => ⟨hon₁, .refl host Owns w₁⟩
  have htrans (w₁ w₂ w₃ : World Store) (h : R w₁ w₂) (h' : R w₂ w₃) : R w₁ w₃ := by
    intro hon₁
    obtain ⟨hon₂, hamends⟩ := h hon₁
    obtain ⟨hon₃, hamends'⟩ := h' hon₂
    exact ⟨hon₃, hamends.trans hamends'⟩
  have hallowed : Keeps R (MonadExcept.ofExcept allowed : Action (World Store) Unit) := by
    intro w₁
    cases allowed <;> exact hrefl w₁
  have hrepairs : Keeps R ((standard seeker).forM f) :=
    .forM hrefl htrans fun r hr w₁ hon₁ => ⟨hon₁.trans (hon r hr w₁), hf r hr w₁ hon₁⟩
  exact (Keeps.bind htrans hallowed (fun _ => hrepairs) w₀ (.refl w₀)).2

/-- Whatever a fix of all build targets comes to, it amends the containers with both
    tags; and whatever a fix of one container comes to, it amends that one, with or
    without the tags. -/
theorem fix_amends (ctx : Context) (seeker name : String) (w : World Store)
    (hkeyed : w.service.IsKeyed) :
    Amends ctx.host (NamesTarget w) w (stateOf ((fixAll (standard seeker) ctx).run w)) ∧
      Amends ctx.host (· = name) w (stateOf ((fixOne (standard seeker) ctx name).run w)) := by
  constructor
  · exact amends_repairs (fun r hr => goesOnward_onTargets hr)
      (fun r hr w' hon => amends_onTargets hr hkeyed hon) _
  · exact amends_repairs (fun r hr => goesOnward_onContainer hr name)
      (fun r hr w' hon => amends_onContainer hr (hon.keyed hkeyed) name) _

theorem fix_amends_mixedFleet :
    let all := stateOf ((fixAll (standard "s") {}).run mixedFleet)
    let one := stateOf ((fixOne (standard "s") {} "b").run mixedFleet)
    mixedFleet.service.IsKeyed ∧
      all.service.requests.map (·.container) = ["a", "c", "a", "c"] ∧
      one.service.requests.map (·.container) = ["b", "b"] ∧
      Amends {} (NamesTarget mixedFleet) mixedFleet all ∧ Amends {} (· = "b") mixedFleet one := by
  intro all one
  have hkeyed : mixedFleet.service.IsKeyed := Store.isKeyed_ofContainers _
  have hrequests : all.service.requests.map (·.container) = ["a", "c", "a", "c"] ∧
      one.service.requests.map (·.container) = ["b", "b"] := by
    decide +kernel
  obtain ⟨hall, hone⟩ := fix_amends {} "s" "b" mixedFleet hkeyed
  exact ⟨hkeyed, hrequests.1, hrequests.2, hall, hone⟩

end BuildTargets.Repair
