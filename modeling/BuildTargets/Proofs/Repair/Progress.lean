/-
  BuildTargets/Proofs/Repair/Progress.lean
  ========================================
  **What no run of a repair undoes.**

  Whatever a repair is run for, in whichever mode and with whatever result, the
  world goes *onward*: the journal and the list of requests grow together, the
  tree only grows, containers keep everything but their devices, and a driver
  that is remembered stays so (`Repair.goesOnward_onTargets`,
  `Repair.goesOnward_onContainer`).
-/
import BuildTargets.Proofs.Repair.Parts

namespace BuildTargets

def Deed.request? : Deed → Option Request
  | .asked request => some request
  | .changed _ => none

namespace World

open Repair (accessibleMode)

/-- From `w` to `w'` nothing was undone. -/
structure Onward (w w' : World Store) : Prop where
  deeds : ∃ ds, w'.journal = w.journal ++ ds ∧
    w'.service.requests = w.service.requests ++ ds.filterMap Deed.request?
  tree : w.tree.Grows accessibleMode w'.tree
  kept : ∀ {name c}, w.stored? name = some c →
    ∃ devices, w'.stored? name = some { c with devices := devices }
  none_new : ∀ {name}, w.stored? name = none → w'.stored? name = none
  reachable : w'.service.unreachable = w.service.unreachable
  drivers : ∀ {seeker driver}, w.drivers.get? seeker = some driver →
    w'.drivers.get? seeker = some driver

namespace Onward

variable {w w' w'' : World Store}

theorem refl (w : World Store) : Onward w w where
  deeds := ⟨[], by simp⟩
  tree := .refl ..
  kept := fun {_ c} h => ⟨c.devices, h⟩
  none_new := id
  reachable := rfl
  drivers := id

theorem trans (h : Onward w w') (h' : Onward w' w'') : Onward w w'' where
  deeds := by
    obtain ⟨ds, hj, hr⟩ := h.deeds
    obtain ⟨ds', hj', hr'⟩ := h'.deeds
    refine ⟨ds ++ ds', ?_, ?_⟩
    · rw [hj', hj, List.append_assoc]
    · rw [hr', hr, List.append_assoc, List.filterMap_append]
  tree := h.tree.trans h'.tree
  kept := by
    intro name c hc
    obtain ⟨devices, hc'⟩ := h.kept hc
    obtain ⟨devices', hc''⟩ := h'.kept hc'
    exact ⟨devices', hc''⟩
  none_new := fun hc => h'.none_new (h.none_new hc)
  reachable := h'.reachable.trans h.reachable
  drivers := fun hd => h'.drivers (h.drivers hd)

theorem of_asked (w : World Store) (request : Request) : Onward w (w.asked request) where
  deeds := ⟨[.asked request], rfl, rfl⟩
  tree := .refl ..
  kept := fun {_ c} h => ⟨c.devices, h⟩
  none_new := id
  reachable := rfl
  drivers := id

theorem of_devices {s : Store} {n : String} {c : Container} (hc : w.stored? n = some c)
    (devices : Dict String Device)
    (hs : s = { w.service with
      containers := w.service.containers.insert n { c with devices := devices } }) :
    Onward w { w with service := s } where
  deeds := ⟨[], by simp [hs]⟩
  tree := .refl ..
  kept := by
    intro name c' hc'
    subst hs
    by_cases hname : name = n
    · subst hname
      rw [hc, Option.some.injEq] at hc'
      subst hc'
      exact ⟨devices, (Dict.get?_insert ..).trans (if_pos rfl)⟩
    · exact ⟨c'.devices, ((Dict.get?_insert ..).trans (if_neg hname)).trans hc'⟩
  none_new := by
    intro name hnone
    subst hs
    have hname : name ≠ n := by
      rintro rfl
      rw [hc] at hnone
      cases hnone
    exact ((Dict.get?_insert ..).trans (if_neg hname)).trans hnone
  reachable := by rw [hs]
  drivers := id

theorem of_changed {t : Tree} (h : w.tree.Grows accessibleMode t) (c : HostChange) :
    Onward w { w with tree := t, journal := w.journal ++ [.changed c] } where
  deeds := ⟨[.changed c], rfl, (List.append_nil _).symm⟩
  tree := h
  kept := fun {_ c} h => ⟨c.devices, h⟩
  none_new := id
  reachable := rfl
  drivers := id

theorem of_drivers {seeker : String} (hnone : w.drivers.get? seeker = none) (driver : Driver) :
    Onward w { w with drivers := w.drivers.insert seeker driver } where
  deeds := ⟨[], by simp⟩
  tree := .refl ..
  kept := fun {_ c} h => ⟨c.devices, h⟩
  none_new := id
  reachable := rfl
  drivers := by
    intro seeker' driver' hd
    have hne : seeker' ≠ seeker := by
      rintro rfl
      rw [hnone] at hd
      cases hd
    exact ((Dict.get?_insert ..).trans (if_neg hne)).trans hd

/-- A container that is stored after a run was stored before it. -/
theorem stored_back (h : Onward w w') {name : String} {c : Container}
    (hc : w'.stored? name = some c) :
    ∃ c₀ devices, w.stored? name = some c₀ ∧ c = { c₀ with devices := devices } := by
  cases hc₀ : w.stored? name with
  | none =>
    rw [h.none_new hc₀] at hc
    cases hc
  | some c₀ =>
    obtain ⟨devices, hdevices⟩ := h.kept hc₀
    rw [hc, Option.some.injEq] at hdevices
    exact ⟨c₀, devices, rfl, hdevices⟩

theorem keyed (h : Onward w w') (hkeyed : w.service.IsKeyed) : w'.service.IsKeyed := by
  intro name c hc
  obtain ⟨c₀, devices, hc₀, rfl⟩ := h.stored_back hc
  exact hkeyed name c₀ hc₀

end Onward

end World

/-! ### The parts of repairs -/

section

variable {ctx : Context} {α : Type}

abbrev GoesOnward (x : Action (World Store) α) : Prop := Keeps World.Onward x

namespace GoesOnward

theorem bind {β : Type} {x : Action (World Store) α} {f : α → Action (World Store) β}
    (hx : GoesOnward x) (hf : ∀ a, GoesOnward (f a)) : GoesOnward (x >>= f) :=
  Keeps.bind (R := World.Onward) (fun _ _ _ h h' => h.trans h') hx hf

theorem forM {f : α → Action (World Store) Unit} {l : List α} (hf : ∀ a ∈ l, GoesOnward (f a)) :
    GoesOnward (l.forM f) :=
  Keeps.forM (R := World.Onward) World.Onward.refl (fun _ _ _ h h' => h.trans h') hf

theorem ok {x : Action (World Store) α} {w w' : World Store} {a : α} (h : GoesOnward x)
    (hrun : x.run w = .ok a w') : w.Onward w' := by
  have hon := h w
  rw [hrun] at hon
  exact hon

/-- A request for a device that has been entered is answered without anything
    being undone. -/
theorem of_accepted {request : Request} {w : World Store}
    (hedit : (∃ n name device, request = .addDevice n name device) ∨
      ∃ n name, request = .removeDevice n name)
    (hu : w.service.unreachable = false)
    (hc : w.service.containers.contains request.container = true) :
    (w.asked request).Onward (stateOf ((World.perform ctx request).run w)) := by
  obtain ⟨c, hc'⟩ := Option.isSome_iff_exists.mp hc
  have hend : stateOf ((World.perform ctx request).run w) = { w.asked request with
      service := ((w.service.logged request).answer ctx.patience request).2 } := by
    rw [World.run_perform_of_accepted hu hc]
    obtain ⟨result, s⟩ := (w.service.logged request).answer ctx.patience request
    cases result <;> rfl
  rw [hend]
  rcases Store.snd_answer (w.service.logged request) ctx.patience request with hs | hs
  · rw [hs]
    exact .refl _
  · rcases Store.apply_devices (s := w.service.logged request) hedit hc' with hs' | ⟨devices, hs'⟩
    · rw [hs, hs']
      exact .refl _
    · exact .of_devices (w := w.asked request) hc' devices (hs.trans hs')

theorem perform {request : Request}
    (hedit : (∃ n name device, request = .addDevice n name device) ∨
      ∃ n name, request = .removeDevice n name) : GoesOnward (World.perform ctx request) := by
  intro w
  rcases w.service.refused_or_accepted request with hrefused | ⟨hu, hc⟩
  · obtain ⟨e, -, hrun⟩ := World.run_perform_of_refused ctx _ hrefused
    rw [hrun]
    exact .refl w
  · exact (World.Onward.of_asked w request).trans (of_accepted hedit hu hc)

end GoesOnward

end

namespace Repair

variable {ctx : Context} {mode : Mode} {c : Container} {w : World Store}

/-! ### Whole repairs -/

theorem onward_bind {α β : Type} {x : Action (World Store) α} {f : α → Action (World Store) β}
    {w₁ : World Store} (hx : w₁.Onward (stateOf (x.run w))) (hf : ∀ a, GoesOnward (f a)) :
    w₁.Onward (stateOf ((x >>= f).run w)) := by
  rw [EStateM.run_bind]
  cases hr : x.run w with
  | ok a w' =>
    rw [hr] at hx
    exact hx.trans (hf a w')
  | error e w' =>
    rw [hr] at hx
    exact hx

theorem onward_meet {d : Drift} {remedy : Action (World Store) Unit}
    (h : w.Onward (stateOf (remedy.run w))) : w.Onward (stateOf ((meet mode d remedy).run w)) := by
  cases mode with
  | check => exact .refl w
  | fix => exact h

theorem goesOnward_keepAccess : GoesOnward (keepAccess ctx mode c) := by
  intro w
  rw [run_keepAccess]
  cases h : accessOf ctx.host w.tree c.name with
  | error e => exact .refl w
  | ok found =>
    obtain ⟨path, bits⟩ := found
    obtain ⟨p, m, hstat, -⟩ := stat_of_accessOf h
    dsimp only
    split
    · exact .refl w
    · apply onward_meet
      rw [World.run_change, HostChange.apply, Tree.chmod_of_stat hstat]
      exact .of_changed (Tree.grows_setMode (Tree.node?_of_stat hstat)) _

theorem goesOnward_add (ctx : Context) (n name : String) (device : Device) :
    GoesOnward (World.perform ctx (.addDevice n name device)) :=
  GoesOnward.perform (Or.inl ⟨n, name, device, rfl⟩)

theorem goesOnward_remove (ctx : Context) (n name : String) :
    GoesOnward (World.perform ctx (.removeDevice n name)) :=
  GoesOnward.perform (Or.inr ⟨n, name, rfl⟩)

theorem goesOnward_keepResource (name : String) (device : Device) :
    GoesOnward (keepResource ctx mode c name device) := by
  intro w
  rw [run_keepResource]
  split
  · exact .refl w
  · split
    · exact .refl w
    · exact onward_meet (goesOnward_remove ctx c.name name w)
    · exact .refl w

theorem goesOnward_passNode (reason node : String) :
    GoesOnward (passNode ctx mode c reason node) := by
  intro w
  unfold passNode
  split
  · exact .refl w
  · exact onward_meet (goesOnward_add ctx c.name node _ w)

theorem goesOnward_keepRenderNodes : GoesOnward (keepRenderNodes ctx mode c) := by
  intro w
  rw [run_keepRenderNodes]
  split
  · exact .refl w
  · split
    · exact GoesOnward.forM (fun node _ => goesOnward_passNode _ node) w
    · exact .refl w

theorem goesOnward_keepDriverNodes : GoesOnward (keepDriverNodes ctx mode c) := by
  intro w
  rw [run_keepDriverNodes]
  split
  · exact GoesOnward.forM (fun node _ => goesOnward_passNode _ node) w
  · exact .refl w

theorem goesOnward_keepLibraries (driver : Driver) :
    GoesOnward (keepLibraries ctx mode c driver) := by
  intro w
  have hadd := goesOnward_add ctx c.name libraryDevice (libraryMountOf driver)
  unfold keepLibraries
  split
  · split
    · exact .refl w
    · have hreplace := (goesOnward_remove ctx c.name libraryDevice).bind fun _ => hadd
      exact onward_meet (hreplace w)
  · exact onward_meet (hadd w)

theorem goesOnward_keepLoaderConfig : GoesOnward (keepLoaderConfig ctx mode c) := by
  intro w
  rw [run_keepLoaderConfig]
  split
  · exact .refl w
  · next habsent =>
    apply onward_meet
    rcases run_writeLoaderConfig habsent with ⟨e, detail, -, hrun⟩ | ⟨q, hgap, hrun⟩
    · rw [hrun]
      exact .refl w
    · rw [hrun]
      have hmissing := (Tree.walk_eq_gap_iff.mp hgap).2.want_missing
      exact (World.Onward.of_changed (Tree.grows_put_file hmissing) _).trans
        (.of_changed (.refl ..) _)
  · exact .refl w

theorem onward_remembering {seeker : String} {driver : Driver}
    (h : knownDriver ctx.host seeker w = .ok (some driver)) :
    w.Onward (remembering w seeker driver) := by
  cases hd : w.drivers.get? seeker with
  | none => exact .of_drivers hd driver
  | some driver' =>
    simp only [knownDriver, hd, Except.ok.injEq, Option.some.injEq] at h
    rw [← h, remembering_eq_self hd]
    exact .refl w

theorem goesOnward_keepDriverParts (driver : Driver) :
    GoesOnward (keepDriverParts ctx mode c driver) :=
  (goesOnward_keepLibraries driver).bind fun _ =>
    goesOnward_keepLoaderConfig.bind fun _ => goesOnward_keepDriverNodes

theorem goesOnward_keepDriver (seeker : String) : GoesOnward (keepDriver seeker ctx mode c) := by
  intro w
  rw [run_keepDriver]
  split
  · split
    · next driver hknown =>
      exact (onward_remembering hknown).trans (goesOnward_keepDriverParts driver _)
    · exact .refl w
    · exact .refl w
  · exact .refl w
  · exact .refl w

variable {seeker : String} {r : Repair Store}

theorem goesOnward_run (hr : r ∈ standard seeker) : GoesOnward (r.run ctx mode c) := by
  simp only [standard, List.mem_cons, List.not_mem_nil, or_false] at hr
  rcases hr with rfl | rfl | rfl | rfl
  · exact goesOnward_keepAccess
  · exact GoesOnward.forM fun e _ => goesOnward_keepResource e.1 e.2
  · exact goesOnward_keepRenderNodes
  · exact goesOnward_keepDriver seeker

theorem goesOnward_onTargets (hr : r ∈ standard seeker) : GoesOnward (r.onTargets ctx mode) := by
  intro w
  rw [run_onTargets]
  split
  · exact .refl w
  · exact GoesOnward.forM (fun c _ => goesOnward_run hr) w

theorem goesOnward_onContainer (hr : r ∈ standard seeker) (name : String) :
    GoesOnward (r.onContainer ctx mode name) := by
  intro w
  rw [run_onContainer]
  split
  · exact .refl w
  · split
    · exact goesOnward_run hr w
    · exact .refl w

theorem onward_of_fixAll {w' : World Store}
    (hrun : (fixAll (standard seeker) ctx).run w = .ok () w') : w.Onward w' := by
  rw [run_fixAll (privileged_of_fixAll hrun)] at hrun
  exact (GoesOnward.forM fun r hr => goesOnward_onTargets hr).ok hrun

end Repair

end BuildTargets
