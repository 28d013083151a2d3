/-
  BuildTargets/Proofs/Repair/Rounds.lean
  ======================================
  **A run on all targets is a round of runs on single ones.**

  A run on all targets lists them once and works on what was listed.  What it does
  to one target it does to no other, so those still to come are what they were when
  they were listed (`IsCurrent`).  To query the service again before each of them
  gives the same run: the same result and the same world, at every step
  (`onTargets_eq_oneByOne`).
-/
import BuildTargets.Proofs.Repair.Warrant

namespace BuildTargets.Repair

open BuildTargets

/-- Runs a repair on the build targets one by one: each is asked for by its name
    when its turn comes. -/
def oneByOne {β : Type} [Service β] (r : Repair β) (ctx : Context) (mode : Mode) :
    Action (World β) Unit := do
  let targets ← World.onService Service.targets
  (targets.map (·.name)).forM (r.onContainer ctx mode)

/-! ### Containers as they were listed -/

/-- Some containers are stored, each under its own name, as they were listed. -/
structure IsCurrent (l : List Container) (w : World Store) : Prop where
  stored : ∀ c ∈ l, w.stored? c.name = some c
  distinct : l.Pairwise fun c c' => c.name ≠ c'.name

variable {ctx : Context} {mode : Mode} {host : HostView} {seeker : String} {r : Repair Store}
  {c : Container} {rest l : List Container} {w w' : World Store}

theorem isCurrent_targets (hkeyed : w.service.IsKeyed) : IsCurrent (targetsOf w.service) w where
  stored := fun c hc => get?_of_mem_targets hkeyed hc
  distinct := by
    refine (nodup_targetsOf hkeyed).imp_of_mem fun {c c'} hc hc' hne heq => hne ?_
    have hstored := get?_of_mem_targets hkeyed hc
    rw [heq, get?_of_mem_targets hkeyed hc', Option.some.injEq] at hstored
    exact hstored.symm

/-- What is done to one container leaves the others as they were listed. -/
theorem IsCurrent.after (h : IsCurrent (c :: rest) w) (halters : Alters host c w w') :
    IsCurrent rest w' := by
  obtain ⟨hapart, hdistinct⟩ := List.pairwise_cons.mp h.distinct
  refine ⟨fun c' hc' => ?_, hdistinct⟩
  rw [halters.others (hapart c' hc').symm]
  exact h.stored c' (List.mem_cons_of_mem _ hc')

/-! ### Rounds -/

/-- As long as they are as listed, it makes no difference whether containers are
    asked for again. -/
theorem forM_eq_forM_onContainer (hr : r ∈ standard seeker)
    (hreachable : w.service.unreachable = false) (h : IsCurrent l w) :
    (l.forM (r.run ctx mode)).run w = ((l.map (·.name)).forM (r.onContainer ctx mode)).run w := by
  induction l generalizing w with
  | nil => rfl
  | cons c rest ih =>
    have halters := alters_run hr ctx mode c w
    rw [List.map_cons, run_forM_cons, run_forM_cons,
      run_onContainer_stored r hreachable (h.stored c List.mem_cons_self)]
    cases hrun : (r.run ctx mode c).run w with
    | error e w' => rfl
    | ok u w' =>
      rw [hrun] at halters
      have hreachable' : w'.service.unreachable = false :=
        halters.onward.reachable.trans hreachable
      exact ih hreachable' (h.after halters)

/-- To work on the targets as they were listed at the start is to ask for each one
    again when its turn comes, with the same result and the same world, in both
    modes. -/
theorem onTargets_eq_oneByOne (ctx : Context) (mode : Mode) (seeker : String) (r : Repair Store)
    (hr : r ∈ standard seeker) (w : World Store) (hkeyed : w.service.IsKeyed) :
    (r.onTargets ctx mode).run w = (r.oneByOne ctx mode).run w := by
  rw [run_onTargets, oneByOne, EStateM.run_bind, World.run_onService, run_targets]
  cases hreachable : w.service.unreachable with
  | true => rfl
  | false =>
    simp only [Bool.false_eq_true, if_false]
    exact forM_eq_forM_onContainer hr hreachable (isCurrent_targets hkeyed)

/-- Two targets and, between them, a container that is none, on a host with a render
    node.  Each of them has a disk whose source is gone. -/
def mixedFleet : World Store where
  service :=
    let disks : Dict String Device := .ofList [("data", .make .disk [("source", "/gone")])]
    .ofContainers
      [plainTarget "a" disks, { plainTarget "b" disks with config := .empty }, plainTarget "c" disks]
  tree := .laidOut [.dir "/var/lib/lxd/containers/a" 0o755, .dir "/var/lib/lxd/containers/b" 0o755,
    .dir "/var/lib/lxd/containers/c" 0o755, .file "/dev/dri/card0" 0o666 []]

theorem onTargets_eq_oneByOne_mixedFleet :
    let all := (resources.onTargets {} .fix).run mixedFleet
    (resources : Repair Store) ∈ standard "s" ∧ mixedFleet.service.IsKeyed ∧
      succeeds all = true ∧
      (stateOf all).service.requests = [.removeDevice "a" "data", .removeDevice "c" "data"] ∧
      all = (resources.oneByOne {} .fix).run mixedFleet := by
  intro all
  have hr : (resources : Repair Store) ∈ standard "s" := by simp [standard]
  have hkeyed : mixedFleet.service.IsKeyed := Store.isKeyed_ofContainers _
  have hrun : succeeds all = true ∧ (stateOf all).service.requests =
      [.removeDevice "a" "data", .removeDevice "c" "data"] := by
    decide +kernel
  exact ⟨hr, hkeyed, hrun.1, hrun.2,
    onTargets_eq_oneByOne {} .fix "s" resources hr mixedFleet hkeyed⟩

end BuildTargets.Repair
