/-
  BuildTargets/Proofs/Repair/Settlement.lean
  ==========================================
  **No operation is left behind.**

  A request that is made and waited for is carried out as it asks, or it fails and
  the containers are as they were (`Store.perform_cases`).  In both cases its
  operation is pending no more: it was entered under the number after the last one,
  which nothing else pends under (`IsNumbered`), and it is taken out whatever the
  wait comes to.

  So whatever becomes of a run, the pending operations are those from before it, and
  the containers have changed by requests of its own only (`Settles`): queries and
  requests keep this, and with them every run.
-/
import BuildTargets.Proofs.Repair.Rounds
import BuildTargets.Proofs.Repair.Runs
import BuildTargets.Proofs.Store.History

namespace BuildTargets

/-- The requests, carried out one after the other, turn some containers into
    others. -/
inductive CarryOut : List Request → Dict String Container → Dict String Container → Prop where
  | nil (containers : Dict String Container) : CarryOut [] containers containers
  | cons {request : Request} {rest : List Request}
      {before between after : Dict String Container} (hfirst : request.Changes before between)
      (hrest : CarryOut rest between after) : CarryOut (request :: rest) before after

theorem CarryOut.append {done done' : List Request} {before between after : Dict String Container}
    (h : CarryOut done before between) (h' : CarryOut done' between after) :
    CarryOut (done ++ done') before after := by
  induction h with
  | nil containers => exact h'
  | cons hfirst _ ih => exact .cons hfirst (ih h')

namespace Store

variable {s s' s'' : Store} {request : Request} {patience : Patience}

/-! ### Stores and their numbers -/

/-- No operation is pending under a number that has yet to be given. -/
def IsNumbered (s : Store) : Prop :=
  ∀ id request, s.pending.get? id = some request → id ≤ s.lastId

/-- What can be reached by acts is numbered. -/
theorem isNumbered_play (cs : List Container) (acts : List Act) :
    ((ofContainers cs).play acts).2.IsNumbered := by
  intro id request hpending
  have hb := bears_play cs acts
  rw [hb.lastId]
  exact hb.le_of_isOpen ((hb.pending id request).mp hpending)

/-- From `s` to `s'` the store has carried out some of the requests that it accepted,
    and it has nothing pending that was not pending before. -/
structure Settles (s s' : Store) : Prop where
  pending : s'.pending = s.pending
  lastId : s.lastId ≤ s'.lastId
  changed : ∃ made done, s'.requests = s.requests ++ made ∧ done.Sublist made ∧
    CarryOut done s.containers s'.containers

namespace Settles

theorem refl (s : Store) : Settles s s :=
  ⟨rfl, Nat.le_refl _, [], [], (List.append_nil _).symm, .slnil, .nil _⟩

theorem trans (h : Settles s s') (h' : Settles s' s'') : Settles s s'' := by
  obtain ⟨made, done, hrequests, hsub, hcarry⟩ := h.changed
  obtain ⟨made', done', hrequests', hsub', hcarry'⟩ := h'.changed
  refine ⟨h'.pending.trans h.pending, Nat.le_trans h.lastId h'.lastId, made ++ made',
    done ++ done', ?_, hsub.append hsub', hcarry.append hcarry'⟩
  rw [hrequests', hrequests, List.append_assoc]

theorem isNumbered (h : Settles s s') (hs : s.IsNumbered) : s'.IsNumbered := by
  intro id request hpending
  rw [h.pending] at hpending
  exact Nat.le_trans (hs id request hpending) h.lastId

end Settles

/-! ### Requests made and waited for -/

/-- What was entered is carried out as it asks, or the wait is a failure and the
    store is as it was. -/
theorem answer_cases (s : Store) (patience : Patience) (request : Request) :
    (∃ containers, request.Changes s.containers containers ∧
      s.answer patience request = (.ok (), { s with containers := containers })) ∨
    ∃ e, s.answer patience request = (.error e, s) := by
  unfold answer
  split
  · exact Or.inr ⟨_, rfl⟩
  · split
    · exact Or.inr ⟨_, rfl⟩
    · rcases s.apply_cases request with ⟨containers, hchanges, happly⟩ | ⟨-, detail, happly⟩
      · rw [happly]
        exact Or.inl ⟨containers, hchanges, rfl⟩
      · rw [happly]
        exact Or.inr ⟨_, rfl⟩

theorem IsNumbered.pending_logged (hs : s.IsNumbered) (request : Request) :
    (s.logged request).pending = s.pending := by
  refine Dict.erase_of_get? ?_
  cases hpending : s.pending.get? (s.lastId + 1) with
  | none => rfl
  | some other =>
    have hle := hs _ other hpending
    omega

theorem IsNumbered.settles_answer (hs : s.IsNumbered) (patience : Patience) (request : Request) :
    s.Settles ((s.logged request).answer patience request).2 := by
  rcases (s.logged request).answer_cases patience request with
    ⟨containers, hchanges, hanswer⟩ | ⟨e, hanswer⟩
  · rw [hanswer]
    exact ⟨hs.pending_logged request, Nat.le_succ _, [request], [request], rfl,
      List.Sublist.refl _, .cons hchanges (.nil _)⟩
  · rw [hanswer]
    exact ⟨hs.pending_logged request, Nat.le_succ _, [request], [], rfl,
      List.nil_sublist _, .nil _⟩

/-- Requests made and waited for are all or nothing. -/
theorem perform_cases (s : Store) (request : Request) (patience : Patience) :
    (∃ s', (Service.perform request patience).run s = .ok () s' ∧
      request.Changes s.containers s'.containers) ∨
    ∃ e s', (Service.perform request patience).run s = .error e s' ∧
      s'.containers = s.containers := by
  rw [run_perform]
  split
  · exact Or.inr ⟨_, s, rfl, rfl⟩
  · split
    · rcases (s.logged request).answer_cases patience request with
        ⟨containers, hchanges, hanswer⟩ | ⟨e, hanswer⟩
      · rw [hanswer]
        exact Or.inl ⟨_, rfl, hchanges⟩
      · rw [hanswer]
        exact Or.inr ⟨e, _, rfl, rfl⟩
    · exact Or.inr ⟨_, s, rfl, rfl⟩

/-- Queries and requests leave nothing behind in a numbered store. -/
theorem keeping_settles :
    Service.Keeping fun s s' : Store => s.IsNumbered → s.Settles s' where
  refl := fun s _ => .refl s
  trans := fun _ _ _ h h' hs => (h hs).trans (h' ((h hs).isNumbered hs))
  containers := by
    intro s _
    rw [service_containers, stateOf_listAll]
    exact .refl s
  container := by
    intro name s _
    rw [service_container, stateOf_find]
    exact .refl s
  perform := by
    intro request patience s hs
    rcases s.stateOf_perform request patience with hsame | hanswered
    · rw [hsame]
      exact .refl s
    · rw [hanswered]
      exact hs.settles_answer patience request

end Store

namespace Repair

variable {ctx : Context} {seeker : String}

theorem settles_run {α : Type} {x : (β : Type) → [Service β] → Action (World β) α}
    (hx : IsRun ctx seeker x) {w : World Store} (hs : w.service.IsNumbered) :
    w.service.Settles (stateOf ((x Store).run w)).service :=
  Store.keeping_settles.run hx w hs

/-- Whatever a run comes to, exactly the operations that were pending before it are
    pending after it, and the containers have changed by its own requests only.  A
    single request made and waited for is all or nothing. -/
theorem runs_settle (ctx : Context) (seeker name : String) (w : World Store)
    (hs : w.service.IsNumbered) :
    (∀ run ∈ [checkAll (standard seeker) ctx, fixAll (standard seeker) ctx,
        checkOne (standard seeker) ctx name, fixOne (standard seeker) ctx name,
        World.onService (Fleet.destroy ctx.patience name)],
      w.service.Settles (stateOf (run.run w)).service) ∧
    ∀ request patience,
      (∃ s', (Service.perform request patience).run w.service = .ok () s' ∧
        w.service.Settles s' ∧ request.Changes w.service.containers s'.containers) ∨
      ∃ e s', (Service.perform request patience).run w.service = .error e s' ∧
        w.service.Settles s' ∧ s'.containers = w.service.containers := by
  constructor
  · intro run hmem
    simp only [List.mem_cons, List.not_mem_nil, or_false] at hmem
    rcases hmem with rfl | rfl | rfl | rfl | rfl
    · exact settles_run .checkAll hs
    · exact settles_run .fixAll hs
    · exact settles_run (.checkOne name) hs
    · exact settles_run (.fixOne name) hs
    · exact settles_run (.destroy name : IsRun ctx seeker _) hs
  · intro request patience
    have hsettles := Store.keeping_settles.perform request patience w.service hs
    rcases w.service.perform_cases request patience with
      ⟨s', hrun, hchanges⟩ | ⟨e, s', hrun, hsame⟩
    · rw [hrun] at hsettles
      exact Or.inl ⟨s', hrun, hsettles, hchanges⟩
    · rw [hrun] at hsettles
      exact Or.inr ⟨e, s', hrun, hsettles, hsame⟩

/-- A fleet in which others have made two requests and not waited for them yet. -/
def busyFleet : World Store :=
  { mixedFleet with
    service := (mixedFleet.service.play
      [.submit (.delete "a"), .submit (.removeDevice "c" "data")]).2 }

theorem runs_settle_busyFleet :
    let result := (fixAll (standard "s") {}).run busyFleet
    let foreign : List (Nat × Request) := [(1, .delete "a"), (2, .removeDevice "c" "data")]
    busyFleet.service.IsNumbered ∧ busyFleet.service.pending.toList = foreign ∧
      succeeds result = true ∧ (stateOf result).service.lastId = 6 ∧
      (stateOf result).service.pending.toList = foreign ∧
      busyFleet.service.Settles (stateOf result).service := by
  intro result foreign
  have hnumbered : busyFleet.service.IsNumbered := Store.isNumbered_play _ _
  have hrun : busyFleet.service.pending.toList = foreign ∧ succeeds result = true ∧
      (stateOf result).service.lastId = 6 ∧
      (stateOf result).service.pending.toList = foreign := by
    decide +kernel
  obtain ⟨hforeign, hsucceeds, hlast, hsame⟩ := hrun
  exact ⟨hnumbered, hforeign, hsucceeds, hlast, hsame,
    (runs_settle {} "s" "a" busyFleet hnumbered).1 _ (by simp)⟩

end Repair

end BuildTargets
