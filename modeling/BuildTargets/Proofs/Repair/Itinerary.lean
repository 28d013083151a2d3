/-
  BuildTargets/Proofs/Repair/Itinerary.lean
  =========================================
  **In which order repairs are run, and how far.**

  This is about any list of repairs, whatever they do to the world: nothing is
  assumed of what a repair does when it is run.  An `Itinerary` says what such a run
  comes to.  One repair after the other finds its fleet, the containers with both
  tags, and visits it in ascending order; the first failure ends everything, and
  without one every pair of a repair and a container has been run.

  Fixing is refused beforehand if a repair needs root and the process is not
  privileged.  Otherwise the list is gone through as it is for a check
  (`run_itinerary`).
-/
import BuildTargets.Proofs.Repair.Compliance

namespace BuildTargets.Repair

open BuildTargets

/-! ### Fleets -/

/-- The containers of a store that carry both tags, each with the name that it is
    stored under, in ascending order of these names.  In a keyed store they are the
    names that the containers have themselves. -/
structure IsFleet (s : Store) (fleet : List (String × Container)) : Prop where
  ascending : fleet.Pairwise fun e e' => e.1 < e'.1
  mem_iff : ∀ e, e ∈ fleet ↔ s.containers.get? e.1 = some e.2 ∧
    e.2.config.contains Container.architectureTag = true ∧
    e.2.config.contains Container.frameworkTag = true
  named : s.IsKeyed → ∀ e ∈ fleet, e.2.name = e.1

theorem exists_fleet (s : Store) : ∃ fleet, IsFleet s fleet ∧ targetsOf s = fleet.map (·.2) := by
  refine ⟨s.containers.toList.filter (·.2.isTarget), ⟨s.containers.sorted.filter _, ?_, ?_⟩, ?_⟩
  · intro e
    rw [List.mem_filter, isTarget_iff, Dict.get?_eq_some_iff]
  · intro hkeyed e he
    exact hkeyed e.1 e.2 (Dict.get?_eq_some_iff.mpr (List.mem_of_mem_filter he))
  · rw [targetsOf, Dict.values, List.filter_map]
    rfl

/-! ### Itineraries -/

/-- A repair is run on some containers one after the other, each time with
    success. -/
inductive Visits (ctx : Context) (mode : Mode) (r : Repair Store) :
    World Store → List (String × Container) → World Store → Prop where
  | nil (w : World Store) : Visits ctx mode r w [] w
  | cons {e rest w w' w''} (hrun : (r.run ctx mode e.2).run w = .ok () w')
      (h : Visits ctx mode r w' rest w'') : Visits ctx mode r w (e :: rest) w''

/-- Some repairs visit their fleets one after the other.  Each finds its fleet in
    the world that the ones before it have left. -/
inductive Tours (ctx : Context) (mode : Mode) :
    World Store → List (Repair Store) → World Store → Prop where
  | nil (w : World Store) : Tours ctx mode w [] w
  | cons {r rest fleet w w' w''} (hreachable : w.service.unreachable = false)
      (hfleet : IsFleet w.service fleet) (hvisits : Visits ctx mode r w fleet w')
      (h : Tours ctx mode w' rest w'') : Tours ctx mode w (r :: rest) w''

/-- What a run of some repairs on all targets comes to. -/
inductive Itinerary (ctx : Context) (mode : Mode) (repairs : List (Repair Store))
    (w : World Store) : EStateM.Result Failure (World Store) Unit → Prop where
  /-- Every repair has visited its whole fleet. -/
  | complete {w'} (htours : Tours ctx mode w repairs w') : Itinerary ctx mode repairs w (.ok () w')
  /-- All repairs before one have done so, and then no fleet can be found. -/
  | unlisted {before r after w'} (hrepairs : repairs = before ++ r :: after)
      (htours : Tours ctx mode w before w') (hunreachable : w'.service.unreachable = true) :
      Itinerary ctx mode repairs w (.error (.unreachable "backend is unreachable") w')
  /-- All repairs before one have done so, and the one has visited all containers
      before the one that it fails on. -/
  | stopped {before r after earlier e later w₁ w₂ w' err}
      (hrepairs : repairs = before ++ r :: after) (htours : Tours ctx mode w before w₁)
      (hreachable : w₁.service.unreachable = false)
      (hfleet : IsFleet w₁.service (earlier ++ e :: later))
      (hvisits : Visits ctx mode r w₁ earlier w₂)
      (hrun : (r.run ctx mode e.2).run w₂ = .error err w') :
      Itinerary ctx mode repairs w (.error err w')

section

variable {ctx : Context} {mode : Mode} {repairs : List (Repair Store)} {r : Repair Store}
  {w w' : World Store} {fleet : List (String × Container)} {err : Failure}

/-- A repair that has visited its whole fleet comes before what the others do. -/
theorem Itinerary.cons {result : EStateM.Result Failure (World Store) Unit}
    (hreachable : w.service.unreachable = false) (hfleet : IsFleet w.service fleet)
    (hvisits : Visits ctx mode r w fleet w') (h : Itinerary ctx mode repairs w' result) :
    Itinerary ctx mode (r :: repairs) w result := by
  have hfirst {others : List (Repair Store)} {w₁ : World Store} (htours : Tours ctx mode w' others w₁) :
      Tours ctx mode w (r :: others) w₁ := .cons hreachable hfleet hvisits htours
  cases h with
  | complete htours => exact .complete (hfirst htours)
  | @unlisted before r' after _ hrepairs htours hunreachable =>
    have hrepairs' : r :: repairs = (r :: before) ++ r' :: after := congrArg (r :: ·) hrepairs
    exact .unlisted hrepairs' (hfirst htours) hunreachable
  | @stopped before r' after _ _ _ _ _ _ _ hrepairs htours hreachable' hfleet' hvisits' hrun =>
    have hrepairs' : r :: repairs = (r :: before) ++ r' :: after := congrArg (r :: ·) hrepairs
    exact .stopped hrepairs' (hfirst htours) hreachable' hfleet' hvisits' hrun

/-! ### Runs on all targets -/

theorem visits_of_ok (hrun : ((fleet.map (·.2)).forM (r.run ctx mode)).run w = .ok () w') :
    Visits ctx mode r w fleet w' := by
  induction fleet generalizing w with
  | nil =>
    cases hrun
    exact .nil _
  | cons e rest ih =>
    rw [List.map_cons, run_forM_cons] at hrun
    cases hfirst : (r.run ctx mode e.2).run w with
    | error err w₁ =>
      rw [hfirst] at hrun
      cases hrun
    | ok u w₁ =>
      rw [hfirst] at hrun
      exact .cons hfirst (ih hrun)

theorem visits_of_error
    (hrun : ((fleet.map (·.2)).forM (r.run ctx mode)).run w = .error err w') :
    ∃ earlier e later w₂, fleet = earlier ++ e :: later ∧ Visits ctx mode r w earlier w₂ ∧
      (r.run ctx mode e.2).run w₂ = .error err w' := by
  induction fleet generalizing w with
  | nil => cases hrun
  | cons e rest ih =>
    rw [List.map_cons, run_forM_cons] at hrun
    cases hfirst : (r.run ctx mode e.2).run w with
    | error err' w₁ =>
      rw [hfirst] at hrun
      cases hrun
      exact ⟨[], e, rest, w, rfl, .nil w, hfirst⟩
    | ok u w₁ =>
      rw [hfirst] at hrun
      obtain ⟨earlier, e', later, w₂, rfl, hvisits, herror⟩ := ih hrun
      exact ⟨e :: earlier, e', later, w₂, rfl, .cons hfirst hvisits, herror⟩

/-- Going through a list of repairs follows an itinerary, whatever they do. -/
theorem itinerary_forM (ctx : Context) (mode : Mode) (repairs : List (Repair Store))
    (w : World Store) :
    Itinerary ctx mode repairs w ((repairs.forM fun r => r.onTargets ctx mode).run w) := by
  induction repairs generalizing w with
  | nil => exact .complete (.nil w)
  | cons r rest ih =>
    have hfirst : r :: rest = [] ++ r :: rest := rfl
    rw [run_forM_cons, run_onTargets]
    cases hreachable : w.service.unreachable with
    | true => exact .unlisted hfirst (.nil w) hreachable
    | false =>
      obtain ⟨fleet, hfleet, htargets⟩ := exists_fleet w.service
      simp only [Bool.false_eq_true, if_false, htargets]
      cases hrun : ((fleet.map (·.2)).forM (r.run ctx mode)).run w with
      | error err w' =>
        obtain ⟨earlier, e, later, w₂, rfl, hvisits, herror⟩ := visits_of_error hrun
        exact .stopped hfirst (.nil w) hreachable hfleet hvisits herror
      | ok u w' => exact (ih w').cons hreachable hfleet (visits_of_ok hrun)

end

/-! ### Permission to fix -/

section

variable {β : Type} {repairs : List (Repair β)}

theorem authorize_of_none (hnone : ∀ r ∈ repairs, r.needsRoot = false) (privileged : Bool) :
    authorize repairs privileged = .ok () := by
  have hneeding : repairs.filter (·.needsRoot) = [] := by
    rw [List.filter_eq_nil_iff]
    intro r hr
    rw [hnone r hr]
    exact Bool.false_ne_true
  rw [authorize, hneeding]
  cases privileged <;> rfl

/-- The failure names the repairs that need root, in the order of the list. -/
def denied (repairs : List (Repair β)) : Failure :=
  .permissionDenied ("fixing " ++ ", ".intercalate ((repairs.filter (·.needsRoot)).map (·.name)) ++
    " requires root privileges")

theorem authorize_of_some (hsome : ∃ r ∈ repairs, r.needsRoot = true) :
    authorize repairs false = .error (denied repairs) := by
  obtain ⟨r, hr, hroot⟩ := hsome
  have hneeding : (repairs.filter (·.needsRoot)).isEmpty = false := by
    rw [List.isEmpty_eq_false_iff]
    exact List.ne_nil_of_mem (List.mem_filter.mpr ⟨hr, hroot⟩)
  rw [authorize, hneeding]
  rfl

/-- Other repairs may take the place of those in a list, one by one. -/
theorem forM_congr {f g : Repair β → Action (World β) Unit} {other : Repair β → Repair β}
    (h : ∀ r ∈ repairs, f r = g (other r)) : repairs.forM f = (repairs.map other).forM g := by
  induction repairs with
  | nil => rfl
  | cons r rest ih =>
    have hrest := ih fun r' hr' => h r' (List.mem_cons_of_mem _ hr')
    rw [List.forM_eq_forM] at hrest ⊢
    rw [List.map_cons, List.forM_cons, List.forM_cons, h r List.mem_cons_self, hrest]

/-- A repair whose runs are shown a flag, whether the process is privileged or not. -/
def shown (b : Bool) (r : Repair β) : Repair β :=
  { r with run := fun ctx => r.run { ctx with privileged := b } }

variable [Service β] {ctx ctx' : Context}

theorem fixAll_of_authorized (h : authorize repairs ctx.privileged = .ok ()) :
    fixAll repairs ctx = repairs.forM fun r => r.onTargets ctx .fix := by
  rw [fixAll, h]
  rfl

theorem fixOne_of_authorized (h : authorize repairs ctx.privileged = .ok ()) (name : String) :
    fixOne repairs ctx name = repairs.forM fun r => r.onContainer ctx .fix name := by
  rw [fixOne, h]
  rfl

/-- Repairs that do not need root are fixed alike in two contexts if their runs there
    are alike. -/
theorem fix_congr (other : Repair β → Repair β) (hnone : ∀ r ∈ repairs, r.needsRoot = false)
    (hsame : ∀ r ∈ repairs,
      (other r).needsRoot = r.needsRoot ∧ r.run ctx' .fix = (other r).run ctx .fix)
    (name : String) :
    fixAll repairs ctx' = fixAll (repairs.map other) ctx ∧
      fixOne repairs ctx' name = fixOne (repairs.map other) ctx name := by
  have hallowed := authorize_of_none hnone ctx'.privileged
  have hallowed' : authorize (repairs.map other) ctx.privileged = .ok () := by
    refine authorize_of_none (List.forall_mem_map.mpr fun r hr => ?_) ctx.privileged
    rw [(hsame r hr).1, hnone r hr]
  constructor
  · rw [fixAll_of_authorized hallowed, fixAll_of_authorized hallowed']
    refine forM_congr fun r hr => ?_
    rw [onTargets, onTargets, (hsame r hr).2]
  · rw [fixOne_of_authorized hallowed, fixOne_of_authorized hallowed']
    refine forM_congr fun r hr => ?_
    rw [onContainer, onContainer, (hsame r hr).2]

theorem fix_denied (hsome : ∃ r ∈ repairs, r.needsRoot = true) (h : ctx.privileged = false)
    (name : String) (w : World β) :
    (fixAll repairs ctx).run w = .error (denied repairs) w ∧
      (fixOne repairs ctx name).run w = .error (denied repairs) w := by
  have hdenied : authorize repairs ctx.privileged = .error (denied repairs) := by
    rw [h]
    exact authorize_of_some hsome
  constructor
  · rw [fixAll, hdenied]
    rfl
  · rw [fixOne, hdenied]
    rfl

end

/-- Whatever a list of repairs does, a check follows an itinerary, and so does a fix
    that is allowed.  One that is not fails at once with the names of the repairs that
    need root, on every service, and leaves everything as it was.  If no repair needs
    root, whether the process is privileged matters only as far as the runs of the
    repairs look at it, and not at all if they do not. -/
theorem run_itinerary :
    (∀ (repairs : List (Repair Store)) (ctx : Context) (w : World Store),
      Itinerary ctx .check repairs w ((checkAll repairs ctx).run w) ∧
        (ctx.privileged = true ∨ (∀ r ∈ repairs, r.needsRoot = false) →
          Itinerary ctx .fix repairs w ((fixAll repairs ctx).run w))) ∧
      ∀ (β : Type) [Service β] (repairs : List (Repair β)) (ctx : Context) (name : String),
        (ctx.privileged = false → (∃ r ∈ repairs, r.needsRoot = true) → ∀ w : World β,
          (fixAll repairs ctx).run w = .error (denied repairs) w ∧
            (fixOne repairs ctx name).run w = .error (denied repairs) w) ∧
        ((∀ r ∈ repairs, r.needsRoot = false) → ∀ b,
          (fixAll repairs { ctx with privileged := b } = fixAll (repairs.map (shown b)) ctx ∧
            fixOne repairs { ctx with privileged := b } name =
              fixOne (repairs.map (shown b)) ctx name) ∧
          ((∀ r ∈ repairs, r.run { ctx with privileged := b } .fix = r.run ctx .fix) →
            fixAll repairs { ctx with privileged := b } = fixAll repairs ctx ∧
              fixOne repairs { ctx with privileged := b } name = fixOne repairs ctx name)) := by
  constructor
  · intro repairs ctx w
    refine ⟨itinerary_forM ctx .check repairs w, fun hallowed => ?_⟩
    have hauthorized : authorize repairs ctx.privileged = .ok () := by
      rcases hallowed with hprivileged | hnone
      · rw [authorize, hprivileged]
        rfl
      · exact authorize_of_none hnone ctx.privileged
    rw [fixAll_of_authorized hauthorized]
    exact itinerary_forM ctx .fix repairs w
  · intro β _ repairs ctx name
    constructor
    · intro hprivileged hsome w
      exact fix_denied hsome hprivileged name w
    · intro hnone b
      refine ⟨fix_congr (shown b) hnone (fun _ _ => ⟨rfl, rfl⟩) name, fun hblind => ?_⟩
      have hsame := fix_congr id hnone (fun r hr => ⟨rfl, hblind r hr⟩) name
      rwa [List.map_id] at hsame

/-- A repair that enters its visits in the journal and fails on one container. -/
def probe (name : String) (needsRoot : Bool) (refused : String) : Repair Store where
  name := name
  needsRoot := needsRoot
  run := fun _ _ c => do
    World.enter (.changed (.chmod (name ++ ":" ++ c.name) 0))
    if c.name = refused then throw (.repairFailed c.name "refused")

/-- Two targets and a container that is none. -/
def probedFleet : World Store where
  service := .ofContainers
    [plainTarget "c" .empty, { plainTarget "b" .empty with config := .empty }, plainTarget "a" .empty]
  tree := .bare

theorem run_itinerary_probedFleet :
    let repairs := [probe "first" false "", probe "second" true "a", probe "third" true ""]
    let result := (fixAll repairs {}).run probedFleet
    let visits (names : List String) : List Deed := names.map fun name => .changed (.chmod name 0)
    Itinerary {} .fix repairs probedFleet result ∧
      resultOf result = .error (.repairFailed "a" "refused") ∧
      (stateOf result).journal = visits ["first:a", "first:c", "second:a"] ∧
      (fixAll repairs { privileged := false }).run probedFleet =
        .error (.permissionDenied "fixing second, third requires root privileges") probedFleet ∧
      fixAll (β := Store) [probe "first" false ""] { privileged := false } =
        fixAll [probe "first" false ""] {} := by
  intro repairs result visits
  obtain ⟨hitinerary, hflag⟩ := run_itinerary
  have hroot : ∃ r ∈ repairs, r.needsRoot = true := ⟨probe "second" true "a", by simp [repairs], rfl⟩
  have hnone : ∀ r ∈ [probe "first" false ""], r.needsRoot = false := by simp [probe]
  have hrun : resultOf result = .error (.repairFailed "a" "refused") ∧
      (stateOf result).journal = visits ["first:a", "first:c", "second:a"] := by
    decide +kernel
  have hblind : ∀ r ∈ [probe "first" false ""],
      r.run { privileged := false } .fix = r.run {} .fix := by
    simp [probe]
  exact ⟨(hitinerary repairs {} probedFleet).2 (Or.inl rfl), hrun.1, hrun.2,
    ((hflag Store repairs { privileged := false } "").1 rfl hroot probedFleet).1,
    (((hflag Store _ {} "").2 hnone false).2 hblind).1⟩

end BuildTargets.Repair
