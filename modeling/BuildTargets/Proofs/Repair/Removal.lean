/-
  BuildTargets/Proofs/Repair/Removal.lean
  =======================================
  **Which devices the fix of the resources removes.**

  A device is removed if it claims a host path with nothing there.  That a path
  cannot be looked at is not taken for that: the fix ends there, in a failure, and
  keeps this device with all that come after it.  The devices before it are gone by
  then (`resources_fix_effect`).
-/
import BuildTargets.Proofs.Repair.Compliance
import BuildTargets.Proofs.Repair.Effect
import BuildTargets.Proofs.Text.Utf8

namespace BuildTargets

/-! ### Devices by what they claim -/

namespace Device

/-- The device claims a path with nothing there. -/
def IsUnbacked (host : HostView) (t : Tree) (d : Device) : Prop :=
  ∃ path, d.Claims path ∧ t.stat (host.path path) = .error .notFound

/-- The device claims a path whose lookup fails with something else than that
    nothing is there. -/
def IsHidden (host : HostView) (t : Tree) (path : String) (e : IoError) (d : Device) : Prop :=
  d.Claims path ∧ t.stat (host.path path) = .error e ∧ e ≠ .notFound

/-- The devices that no resource is missing for, whatever is on the host. -/
inductive IsSpared (d : Device) : Prop where
  | optional (h : d.property? "optional" = some "true")
  | otherKind (hdisk : d.kind ≠ .disk) (hchar : d.kind ≠ .unixChar)
  | noSource (hkind : d.kind = .disk)
      (hsource : d.property? "source" = none ∨ d.property? "source" = some "")
  | numbered (hkind : d.kind = .unixChar) (hmajor : d.property? "major" ≠ none)
      (hminor : d.property? "minor" ≠ none)

theorem IsSpared.claims_nothing {d : Device} (h : d.IsSpared) (path : String) :
    ¬d.Claims path := by
  intro hclaims
  cases hclaims with
  | source hneeded hkind hsource hne =>
    cases h with
    | optional h => exact hneeded h
    | otherKind hdisk hchar => exact hdisk hkind
    | noSource hkind' hnone => simp [hsource, hne] at hnone
    | numbered hkind' hmajor hminor =>
      rw [hkind] at hkind'
      cases hkind'
  | node hneeded hkind hnumbers hpath hne =>
    cases h with
    | optional h => exact hneeded h
    | otherKind hdisk hchar => exact hchar hkind
    | noSource hkind' hnone =>
      rw [hkind] at hkind'
      cases hkind'
    | numbered hkind' hmajor hminor =>
      rcases hnumbers with hnone | hnone
      · exact hmajor hnone
      · exact hminor hnone

theorem IsUnbacked.not_hidden {host : HostView} {t : Tree} {d : Device}
    (h : d.IsUnbacked host t) (path : String) (e : IoError) : ¬d.IsHidden host t path e := by
  rintro ⟨hclaims, hstat, hne⟩
  obtain ⟨path', hclaims', hstat'⟩ := h
  rw [claims_iff] at hclaims hclaims'
  rw [hclaims] at hclaims'
  cases hclaims'
  rw [hstat] at hstat'
  cases hstat'
  exact hne rfl

end Device

namespace Repair

open Script

variable {host : HostView} {t : Tree}

/-- The failure for a device whose path cannot be looked at. -/
def cannotLook (container path : String) (e : IoError) : Failure :=
  .inspectionFailed container
    ("failed to query device source " ++ path ++ ": " ++ e.message)

/-- What is found about one device. -/
theorem resourceScript_cases (host : HostView) (t : Tree) (c : Container) (name : String)
    (d : Device) :
    (¬d.IsUnbacked host t ∧ (∀ path e, ¬d.IsHidden host t path e) ∧
        resourceScript host t c name d = clear) ∨
      (d.IsUnbacked host t ∧ ∃ drift,
        resourceScript host t c name d = single drift [.ask (.removeDevice c.name name)]) ∨
      ∃ path e, d.IsHidden host t path e ∧
        resourceScript host t c name d = failing (cannotLook c.name path e) := by
  unfold resourceScript
  cases hpath : d.hostPath? with
  | none =>
    have hnone (path : String) : ¬d.Claims path := by
      rw [Device.claims_iff, hpath]
      simp
    refine Or.inl ⟨?_, ?_, rfl⟩
    · rintro ⟨path, hclaims, -⟩
      exact hnone path hclaims
    · intro path e h
      exact hnone path h.1
  | some path =>
    have hclaims : d.Claims path := Device.claims_iff.mpr hpath
    dsimp only
    cases hpresent : host.isPresent t path with
    | ok present =>
      cases present with
      | true =>
        obtain ⟨q, n, hstat⟩ := Tree.isPresent_eq_true_iff.mp hpresent
        have hthere {path' : String} {e : IoError} (h : d.Claims path') :
            t.stat (host.path path') ≠ .error e := by
          rw [Device.claims_iff, hpath] at h
          cases h
          rw [hstat]
          simp
        refine Or.inl ⟨?_, ?_, rfl⟩
        · rintro ⟨path', h, habsent⟩
          exact hthere h habsent
        · intro path' e h
          exact hthere h.1 h.2.1
      | false =>
        have habsent := Tree.isPresent_eq_false_iff.mp hpresent
        exact Or.inr (Or.inl ⟨⟨path, hclaims, habsent⟩, _, rfl⟩)
    | error e =>
      obtain ⟨hstat, hne⟩ := Tree.isPresent_eq_error_iff.mp hpresent
      exact Or.inr (Or.inr ⟨path, e, ⟨hclaims, hstat, hne⟩, rfl⟩)

/-- Going through devices one after the other, up to the first hidden one: the names
    of the unbacked ones, and how it ends. -/
inductive Sweep (host : HostView) (t : Tree) (container : String) :
    List (String × Device) → List String → Except Failure Unit → Prop where
  | nil : Sweep host t container [] [] (.ok ())
  | keep {k d rest gone result} (hbacked : ¬d.IsUnbacked host t)
      (hplain : ∀ path e, ¬d.IsHidden host t path e)
      (hrest : Sweep host t container rest gone result) :
      Sweep host t container ((k, d) :: rest) gone result
  | drop {k d rest gone result} (hunbacked : d.IsUnbacked host t)
      (hrest : Sweep host t container rest gone result) :
      Sweep host t container ((k, d) :: rest) (k :: gone) result
  | bar {k d rest path e} (hhidden : d.IsHidden host t path e) :
      Sweep host t container ((k, d) :: rest) [] (.error (cannotLook container path e))

/-- A name comes before those of all hidden devices. -/
def IsAhead (host : HostView) (t : Tree) (es : List (String × Device)) (k : String) : Prop :=
  ∀ k' d', (k', d') ∈ es → ∀ path e, d'.IsHidden host t path e → k < k'

/-- A device that is not hidden holds nothing back. -/
theorem isAhead_cons_iff {k k₁ : String} {d₁ : Device} {rest : List (String × Device)}
    (hplain : ∀ path e, ¬d₁.IsHidden host t path e) :
    IsAhead host t ((k₁, d₁) :: rest) k ↔ IsAhead host t rest k := by
  constructor
  · intro h k' d' hmem
    exact h k' d' (List.mem_cons_of_mem _ hmem)
  · intro h k' d' hmem path e hhidden
    rcases List.mem_cons.mp hmem with heq | hmem
    · cases heq
      exact absurd hhidden (hplain path e)
    · exact h k' d' hmem path e hhidden

theorem sweep_resources (host : HostView) (t : Tree) (c : Container)
    (es : List (String × Device)) :
    ∃ gone, (all (fun e => resourceScript host t c e.1 e.2) es).requests =
        gone.map (fun k => .removeDevice c.name k) ∧
      Sweep host t c.name es gone (all (fun e => resourceScript host t c e.1 e.2) es).ending := by
  induction es with
  | nil => exact ⟨[], rfl, .nil⟩
  | cons e rest ih =>
    obtain ⟨gone, hrequests, hsweep⟩ := ih
    rw [all, requests_append, ending_append]
    rcases resourceScript_cases host t c e.1 e.2 with
      ⟨hbacked, hplain, hscript⟩ | ⟨hunbacked, drift, hscript⟩ | ⟨path, failure, hhidden, hscript⟩
    · rw [hscript]
      exact ⟨gone, hrequests, .keep hbacked hplain hsweep⟩
    · rw [hscript]
      refine ⟨e.1 :: gone, ?_, .drop hunbacked hsweep⟩
      simp only [single, List.map_cons, ← hrequests]
      rfl
    · rw [hscript]
      exact ⟨[], rfl, .bar hhidden⟩

/-- The ending that devices make: the failure of the first hidden one, or success if
    there is none. -/
inductive SweepEnds (host : HostView) (t : Tree) (container : String)
    (Has : String → Device → Prop) : Except Failure Unit → Prop where
  | barred {k d path e} (hhas : Has k d) (hhidden : d.IsHidden host t path e)
      (hfirst : ∀ k' d' path' e', Has k' d' → d'.IsHidden host t path' e' →
        ¬Text.Precedes k' k) :
      SweepEnds host t container Has (.error (cannotLook container path e))
  | through (hplain : ∀ k d path e, Has k d → ¬d.IsHidden host t path e) :
      SweepEnds host t container Has (.ok ())

/-- A device that is not hidden makes no difference. -/
theorem SweepEnds.cons {container k₁ : String} {d₁ : Device} {rest : List (String × Device)}
    {result : Except Failure Unit}
    (h : SweepEnds host t container (fun k d => (k, d) ∈ rest) result)
    (hplain : ∀ path e, ¬d₁.IsHidden host t path e) :
    SweepEnds host t container (fun k d => (k, d) ∈ (k₁, d₁) :: rest) result := by
  cases h with
  | barred hhas hhidden hfirst =>
    refine .barred (List.mem_cons_of_mem _ hhas) hhidden fun k' d' path' e' hmem hhidden' => ?_
    rcases List.mem_cons.mp hmem with heq | hmem
    · cases heq
      exact absurd hhidden' (hplain path' e')
    · exact hfirst k' d' path' e' hmem hhidden'
  | through hnone =>
    refine .through fun k' d' path e hmem => ?_
    rcases List.mem_cons.mp hmem with heq | hmem
    · cases heq
      exact hplain path e
    · exact hnone k' d' path e hmem

namespace Sweep

variable {container : String} {es : List (String × Device)} {gone : List String}
variable {result : Except Failure Unit}

theorem sublist (h : Sweep host t container es gone result) : gone.Sublist (es.map (·.1)) := by
  induction h with
  | nil => exact List.Sublist.refl _
  | keep _ _ _ ih => exact ih.cons _
  | drop _ _ ih => exact ih.cons_cons _
  | bar _ => exact List.nil_sublist _

/-- Unbacked devices are met if they come before all hidden ones. -/
theorem mem_iff (h : Sweep host t container es gone result) (hsorted : es.Pairwise (·.1 < ·.1))
    (k : String) :
    k ∈ gone ↔ ∃ d, (k, d) ∈ es ∧ d.IsUnbacked host t ∧ IsAhead host t es k := by
  induction h with
  | nil => simp
  | @keep k₁ d₁ rest gone result hbacked hplain hrest ih =>
    rw [ih (List.pairwise_cons.mp hsorted).2, isAhead_cons_iff hplain]
    constructor
    · rintro ⟨d, hd, hunbacked, hahead⟩
      exact ⟨d, List.mem_cons_of_mem _ hd, hunbacked, hahead⟩
    · rintro ⟨d, hd, hunbacked, hahead⟩
      rcases List.mem_cons.mp hd with heq | hd
      · cases heq
        exact absurd hunbacked hbacked
      · exact ⟨d, hd, hunbacked, hahead⟩
  | @drop k₁ d₁ rest gone result hunbacked₁ hrest ih =>
    obtain ⟨hlt, hsorted⟩ := List.pairwise_cons.mp hsorted
    rw [List.mem_cons, ih hsorted, isAhead_cons_iff hunbacked₁.not_hidden]
    constructor
    · rintro (rfl | ⟨d, hd, hunbacked, hahead⟩)
      · exact ⟨d₁, List.mem_cons_self, hunbacked₁, fun k' d' hmem _ _ _ => hlt (k', d') hmem⟩
      · exact ⟨d, List.mem_cons_of_mem _ hd, hunbacked, hahead⟩
    · rintro ⟨d, hd, hunbacked, hahead⟩
      rcases List.mem_cons.mp hd with heq | hd
      · cases heq
        exact Or.inl rfl
      · exact Or.inr ⟨d, hd, hunbacked, hahead⟩
  | @bar k₁ d₁ rest path e hhidden =>
    have hlt := (List.pairwise_cons.mp hsorted).1
    simp only [List.not_mem_nil, false_iff]
    -- nothing that is listed comes before the first entry, and this one is hidden
    rintro ⟨d, hd, -, hahead⟩
    have hk : k < k₁ := hahead k₁ d₁ List.mem_cons_self path e hhidden
    rcases List.mem_cons.mp hd with heq | hd
    · cases heq
      exact lt_irrefl _ hk
    · exact lt_asymm hk (hlt (k, d) hd)

theorem ending (h : Sweep host t container es gone result) (hsorted : es.Pairwise (·.1 < ·.1)) :
    SweepEnds host t container (fun k d => (k, d) ∈ es) result := by
  induction h with
  | nil => exact .through fun k d path e hmem => absurd hmem List.not_mem_nil
  | keep hbacked hplain hrest ih => exact (ih (List.pairwise_cons.mp hsorted).2).cons hplain
  | drop hunbacked hrest ih =>
    exact (ih (List.pairwise_cons.mp hsorted).2).cons hunbacked.not_hidden
  | @bar k₁ d₁ rest path e hhidden =>
    have hlt := (List.pairwise_cons.mp hsorted).1
    refine .barred List.mem_cons_self hhidden fun k' d' _ _ hmem _ => ?_
    rw [Text.precedes_iff]
    rcases List.mem_cons.mp hmem with heq | hmem
    · cases heq
      exact lt_irrefl _
    · exact lt_asymm (hlt (k', d') hmem)

end Sweep

/-- What the fix of the resources removes from a container with some devices, and how it
    ends. -/
structure Removal (host : HostView) (t : Tree) (container : String)
    (devices : Dict String Device) (gone : List String) (result : Except Failure Unit) : Prop where
  sorted : gone.Pairwise Text.Precedes
  mem_iff : ∀ k, k ∈ gone ↔ ∃ d, devices.get? k = some d ∧ d.IsUnbacked host t ∧
    ∀ k' d' path e, devices.get? k' = some d' → d'.IsHidden host t path e → Text.Precedes k k'
  ending : SweepEnds host t container (fun k d => devices.get? k = some d) result

theorem Removal.spared {container : String} {devices : Dict String Device} {gone : List String}
    {result : Except Failure Unit} (h : Removal host t container devices gone result) {k : String}
    {d : Device} (hd : devices.get? k = some d) (hspared : d.IsSpared) : k ∉ gone := by
  intro hk
  obtain ⟨d', hd', ⟨path, hclaims, -⟩, -⟩ := (h.mem_iff k).mp hk
  rw [hd] at hd'
  cases hd'
  exact hspared.claims_nothing path hclaims

theorem Sweep.removal {container : String} {devices : Dict String Device} {gone : List String}
    {result : Except Failure Unit} (h : Sweep host t container devices.toList gone result) :
    Removal host t container devices gone result where
  sorted := by
    have hkeys : (devices.toList.map (·.1)).Pairwise (· < ·) :=
      List.pairwise_map.mpr devices.sorted
    exact (hkeys.sublist h.sublist).imp Text.precedes_of_lt
  mem_iff := by
    intro k
    simp only [Dict.get?_eq_some_iff, Text.precedes_iff]
    rw [h.mem_iff devices.sorted]
    constructor
    · rintro ⟨d, hd, hunbacked, hahead⟩
      exact ⟨d, hd, hunbacked, fun k' d' path e hmem => hahead k' d' hmem path e⟩
    · rintro ⟨d, hd, hunbacked, hahead⟩
      exact ⟨d, hd, hunbacked, fun k' d' hmem path e => hahead k' d' path e hmem⟩
  ending := by
    simp only [Dict.get?_eq_some_iff]
    exact h.ending devices.sorted

/-- On a service that does what it is asked, the fix of the resources removes the
    unbacked devices that come before all hidden ones, one request for each, and does
    nothing else. -/
theorem resources_fix_effect (ctx : Context) (w : World Store) (name : String) (c : Container)
    (hw : Willing ctx w) (hkeyed : w.service.IsKeyed) (hc : w.stored? name = some c) :
    ∃ gone devices result,
      HasEffect c w ((resources.onContainer ctx .fix name).run w)
        ⟨result, gone.map fun k => .asked (.removeDevice name k), devices, w.tree⟩ ∧
      Removal ctx.host w.tree name c.devices gone result ∧
      (∀ k, devices.get? k = if k ∈ gone then none else c.devices.get? k) ∧
      ∀ k d, c.devices.get? k = some d → d.IsSpared → devices.get? k = some d := by
  have hname : c.name = name := hkeyed name c hc
  subst hname
  obtain ⟨gone, hrequests, hsweep⟩ := sweep_resources ctx.host w.tree c c.devices.toList
  have hremoval : Removal ctx.host w.tree c.name c.devices gone _ := hsweep.removal
  obtain ⟨devices, hrefits⟩ : (resourcesScript ctx.host w.tree c).IsFeasible c.name c.devices :=
    isFeasible_resources c.devices.sorted fun e he => by
      rw [Dict.contains, Dict.get?_eq_some_iff.mpr he]
      rfl
  have heffect := hasEffect_follow (onlyAsks_resourcesScript ctx.host w.tree c) hw hc hrefits
  have hdevices (k : String) :
      devices.get? k = if k ∈ gone then none else c.devices.get? k := by
    rw [resourcesScript, hrequests] at hrefits
    exact hrefits.get?_removals k
  refine ⟨gone, devices, _, ?_, hremoval, hdevices, fun k d hd hspared => ?_⟩
  · rw [run_onContainer_stored _ hw.reachable hc]
    change HasEffect c w ((keepResources ctx .fix c).run w) _
    rw [keepResources_follows]
    rw [resourcesScript, hrequests, List.map_map] at heffect
    exact heffect
  · rw [hdevices, if_neg (hremoval.spared hd hspared), hd]

/-- Disks of a container whose sources are gone, one that need not be there, and one
    whose source lies below a file. -/
def hiddenSource : World Store where
  service := .ofContainers [plainTarget "c" (.ofList [
    ("backup", .make .disk [("source", "/gone")]),
    ("cache", .make .disk [("source", "/gone"), ("optional", "true")]),
    ("data", .make .disk [("source", "/srv")]),
    ("modem", .make .unixChar [("path", "dev/modem")]),
    ("music", .make .disk [("source", "/srv/file/music")]),
    ("photos", .make .disk [("source", "/gone")])])]
  tree := .laidOut [.file "/srv/file" 0o644 []]

/-- The disk below the file is kept, and so is the one after it. -/
theorem resources_fix_effect_hiddenSource :
    let r := (resources.onContainer {} .fix "c").run hiddenSource
    Willing {} hiddenSource ∧ hiddenSource.service.IsKeyed ∧
      (stateOf r).service.requests = [.removeDevice "c" "backup", .removeDevice "c" "modem"] ∧
      succeeds r = false ∧
      ∃ c gone devices result, hiddenSource.stored? "c" = some c ∧
        HasEffect c hiddenSource r
          ⟨result, gone.map fun k => .asked (.removeDevice "c" k), devices, hiddenSource.tree⟩ ∧
        Removal {} hiddenSource.tree "c" c.devices gone result := by
  intro r
  have hw : Willing {} hiddenSource := ⟨rfl, rfl, rfl⟩
  have hkeyed : hiddenSource.service.IsKeyed := Store.isKeyed_ofContainers _
  have hrun : (stateOf r).service.requests =
      [.removeDevice "c" "backup", .removeDevice "c" "modem"] ∧ succeeds r = false := by
    decide +kernel
  obtain ⟨c, hc⟩ : ∃ c, hiddenSource.stored? "c" = some c :=
    Option.isSome_iff_exists.mp (by decide +kernel)
  obtain ⟨gone, devices, result, heffect, hremoval, -, -⟩ :=
    resources_fix_effect {} hiddenSource "c" c hw hkeyed hc
  exact ⟨hw, hkeyed, hrun.1, hrun.2, c, gone, devices, result, hc, heffect, hremoval⟩

end Repair

end BuildTargets
