/-
  BuildTargets/Proofs/Teardown.lean
  =================================
  **A container is deleted only when it is stopped.**

  To destroy a container takes up to two requests.  Whatever the service makes of
  them, they are made in their order, the second one not unless the container is
  stopped, and the removal succeeds if and only if the deletion does
  (`Removes`).  This holds of every service whose requests can be accounted for
  (`Accounting.removes`): of the client, whatever its launcher answers, and of the
  containers in memory, also if a wait is disturbed.

  What the client finds is stopped if the record says so that it is read from
  (`IsListedAs`).  In memory it can also be said what becomes of the containers
  (`Disposal`): the one that was to be destroyed is gone, or it is there and at most
  stopped, and then it can be destroyed later.
-/
import BuildTargets.Fleet
import BuildTargets.Proofs.Client
import BuildTargets.Proofs.Json.Decode
import BuildTargets.Proofs.Repair.Settlement
import BuildTargets.Proofs.Store.Disturbed

namespace BuildTargets.Fleet

open BuildTargets

/-! ### Requests and what they come to -/

/-- Requests that have been accepted, in their order, each with what it came to. -/
abbrev Dealings := List (Request × Except Failure Unit)

/-- The requests that have been completed successfully. -/
def completed (dealings : Dealings) : List Request :=
  dealings.filterMap fun d => match d.2 with
    | .ok _ => some d.1
    | .error _ => none

/-- A request that is made and waited for is refused, or it comes to its result. -/
inductive Attempt (request : Request) : Dealings → Except Failure Unit → Prop where
  | refused (e : Failure) : Attempt request [] (.error e)
  | answered (result : Except Failure Unit) : Attempt request [(request, result)] result

/-- How the removal of a container goes, from what was found under its name. -/
inductive Teardown (name : String) :
    Except Failure Container → Dealings → Except Failure Unit → Prop where
  | unknown (e : Failure) : Teardown name (.error e) [] (.error e)
  /-- It is not stopped, and cannot be stopped. -/
  | halted {c dealings e} (hstatus : c.status ≠ .stopped)
      (hstop : Attempt (.stop name true) dealings (.error e)) :
      Teardown name (.ok c) dealings (.error e)
  | direct {c dealings result} (hstatus : c.status = .stopped)
      (hdelete : Attempt (.delete name) dealings result) : Teardown name (.ok c) dealings result
  | stopped {c dealings result} (hstatus : c.status ≠ .stopped)
      (hdelete : Attempt (.delete name) dealings result) :
      Teardown name (.ok c) ((.stop name true, .ok ()) :: dealings) result

/-- What is to be said about every removal of a container. -/
structure Removes (name : String) (found : Except Failure Container) (dealings : Dealings)
    (result : Except Failure Unit) : Prop where
  requests : dealings.map (·.1) ∈
    [[], [.stop name true], [.delete name], [.stop name true, .delete name]]
  /-- Nothing is deleted but what is stopped, from the start or just before. -/
  guarded : .delete name ∈ dealings.map (·.1) → ∃ c, found = .ok c ∧
    (c.status = .stopped ∨ ∃ r, dealings = [(.stop name true, .ok ()), (.delete name, r)])
  succeeds_iff : result = .ok () ↔ (.delete name, .ok ()) ∈ dealings

theorem Teardown.removes {name : String} {found : Except Failure Container} {dealings : Dealings}
    {result : Except Failure Unit} (h : Teardown name found dealings result) :
    Removes name found dealings result := by
  cases h with
  | unknown e => exact ⟨by simp, by simp, by simp⟩
  | halted hstatus hstop =>
    cases hstop with
    | refused e => exact ⟨by simp, by simp, by simp⟩
    | answered => exact ⟨by simp, by simp, by simp⟩
  | @direct c _ _ hstatus hdelete =>
    cases hdelete with
    | refused e => exact ⟨by simp, by simp, by simp⟩
    | answered => exact ⟨by simp, fun _ => ⟨c, rfl, Or.inl hstatus⟩, by simp [eq_comm]⟩
  | @stopped c _ _ hstatus hdelete =>
    cases hdelete with
    | refused e => exact ⟨by simp, by simp, by simp⟩
    | answered => exact ⟨by simp, fun _ => ⟨c, rfl, Or.inr ⟨_, rfl⟩⟩, by simp [eq_comm]⟩

/-- Either the deletion has been completed, or the container has been stopped at most. -/
theorem Teardown.completed_cases {name : String} {found : Except Failure Container}
    {dealings : Dealings} {result : Except Failure Unit}
    (h : Teardown name found dealings result) :
    result = .ok () ∧ (completed dealings = [.delete name] ∨
        completed dealings = [.stop name true, .delete name]) ∨
      (∃ e, result = .error e) ∧ (completed dealings = [] ∨
        completed dealings = [.stop name true]) := by
  cases h with
  | unknown e => exact Or.inr ⟨⟨_, rfl⟩, Or.inl rfl⟩
  | halted hstatus hstop =>
    cases hstop with
    | refused e => exact Or.inr ⟨⟨_, rfl⟩, Or.inl rfl⟩
    | answered => exact Or.inr ⟨⟨_, rfl⟩, Or.inl rfl⟩
  | direct hstatus hdelete =>
    cases hdelete with
    | refused e => exact Or.inr ⟨⟨_, rfl⟩, Or.inl rfl⟩
    | answered =>
      cases result with
      | ok u => exact Or.inl ⟨rfl, Or.inl rfl⟩
      | error e => exact Or.inr ⟨⟨_, rfl⟩, Or.inl rfl⟩
  | stopped hstatus hdelete =>
    cases hdelete with
    | refused e => exact Or.inr ⟨⟨_, rfl⟩, Or.inr rfl⟩
    | answered =>
      cases result with
      | ok u => exact Or.inl ⟨rfl, Or.inr rfl⟩
      | error e => exact Or.inr ⟨⟨_, rfl⟩, Or.inr rfl⟩

/-! ### Services whose requests are accounted for -/

variable {β : Type} [Service β]

/-- A relation that says what a service is like after some requests. -/
structure Accounting (patience : Patience) (D : β → Dealings → β → Prop) : Prop where
  refl : ∀ s, D s [] s
  trans : ∀ s dealings s' dealings' s'', D s dealings s' → D s' dealings' s'' →
    D s (dealings ++ dealings') s''
  perform : ∀ request s, ∃ dealings,
    Attempt request dealings (resultOf ((Service.perform request patience).run s)) ∧
      D s dealings (stateOf ((Service.perform request patience).run s))

/-- The removal of a container is accounted for, from the moment it has been looked
    for. -/
theorem Accounting.teardown {patience : Patience} {D : β → Dealings → β → Prop}
    (h : Accounting patience D) (name : String) (s : β) :
    ∃ dealings, D (stateOf ((Service.container name).run s)) dealings
        (stateOf ((destroy patience name).run s)) ∧
      Teardown name (resultOf ((Service.container name).run s)) dealings
        (resultOf ((destroy patience name).run s)) := by
  unfold destroy
  rw [EStateM.run_bind]
  cases hfind : (Service.container name).run s with
  | error e s₁ => exact ⟨[], h.refl s₁, .unknown e⟩
  | ok c s₁ =>
    by_cases hstatus : c.status = .stopped
    · obtain ⟨dealings, hattempt, hdealings⟩ := h.perform (.delete name) s₁
      simp only [hstatus, ne_eq, not_true_eq_false, if_false]
      exact ⟨dealings, hdealings, .direct hstatus hattempt⟩
    · simp only [ne_eq, hstatus, not_false_eq_true, if_true]
      obtain ⟨dealings, hattempt, hdealings⟩ := h.perform (.stop name true) s₁
      rw [EStateM.run_bind]
      cases hstop : (Service.perform (.stop name true) patience).run s₁ with
      | error e s₂ =>
        rw [hstop] at hattempt hdealings
        exact ⟨dealings, hdealings, .halted hstatus hattempt⟩
      | ok u s₂ =>
        rw [hstop] at hattempt hdealings
        -- the run goes on, so the stop has been accepted and completed
        cases hattempt with
        | answered =>
          obtain ⟨dealings', hattempt', hdealings'⟩ := h.perform (.delete name) s₂
          exact ⟨_, h.trans _ _ _ _ _ hdealings hdealings', .stopped hstatus hattempt'⟩

/-! ### The client -/

/-- From one client to the other some requests have been made, each a process of its own
    that the launcher has started. -/
inductive Clientele (patience : Patience) : Client → Dealings → Client → Prop where
  | nil (c : Client) : Clientele patience c [] c
  | cons {c c' request run dealings} (hstart : c.start request.arguments = .ok run)
      (hrest : Clientele patience (c.settled request) dealings c') :
      Clientele patience c ((request, Client.waited patience request run) :: dealings) c'

theorem Clientele.append {patience : Patience} {c c' c'' : Client} {dealings dealings' : Dealings}
    (h : Clientele patience c dealings c') (h' : Clientele patience c' dealings' c'') :
    Clientele patience c (dealings ++ dealings') c'' := by
  induction h with
  | nil c => exact h'
  | cons hstart _ ih => exact .cons hstart (ih h')

theorem accounting_client (patience : Patience) :
    Accounting patience (Clientele patience) where
  refl := .nil
  trans := fun _ _ _ _ _ h h' => h.append h'
  perform := by
    intro request c
    rw [Client.run_perform_eq]
    cases hstart : c.start request.arguments with
    | error e => exact ⟨[], .refused _, .nil c⟩
    | ok run =>
      have hmade : Clientele patience c [(request, Client.waited patience request run)]
          (c.settled request) := .cons hstart (.nil _)
      dsimp only
      cases hwaited : Client.waited patience request run with
      | ok u =>
        rw [hwaited] at hmade
        exact ⟨_, .answered (.ok ()), hmade⟩
      | error e =>
        rw [hwaited] at hmade
        exact ⟨_, .answered (.error e), hmade⟩

/-- The status that a record reports; it is empty if there is none. -/
def reportedStatus? (j : Json) : Option String := do
  let fields ← j.record? ["name", "status", "config", "devices", "state"]
  Json.optional fields "status" "" Json.text?

/-- The client lists the container first among those of its name, from a record that
    reports the status. -/
def IsListedAs (c : Client) (name : String) (found : Container) (status : String) : Prop :=
  ∃ run items cs j, c.start listArguments = .ok run ∧ run.status.isSuccess = true ∧
    Json.read? (Text.decodeLossy run.stdout) = some (.array items) ∧
    Json.list? Listing.container? (.array items) = some cs ∧
    cs.find? (·.name = name) = some found ∧
    j ∈ items ∧ Listing.container? j = some found ∧ reportedStatus? j = some status

theorem ofText_eq_stopped_iff {text : String} :
    Status.ofText text = .stopped ↔ text.toList.map Char.toLower = "stopped".toList := by
  unfold Status.ofText
  dsimp only
  split
  · next h => simp [h]
  · next h =>
    simp only [h, iff_false]
    split
    · nofun
    · split <;> nofun

theorem status_of_container? {j : Json} {c : Container} (h : Listing.container? j = some c) :
    ∃ text, reportedStatus? j = some text ∧ c.status = .ofText text := by
  unfold Listing.container? at h
  simp only [bind, Option.bind_eq_some_iff] at h
  obtain ⟨fields, hfields, name, -, text, htext, config, -, devices, -, state, -, hc⟩ := h
  cases hc
  refine ⟨text, ?_, rfl⟩
  unfold reportedStatus?
  rw [hfields]
  exact htext

/-- A container that the client finds is stopped if the status that it reports says so,
    in whatever case. -/
theorem isListedAs_of_found {c : Client} {name : String} {found : Container}
    (h : resultOf ((Service.container name).run c) = .ok found) :
    ∃ status, IsListedAs c name found status ∧
      (found.status = .stopped ↔ status.toList.map Char.toLower = "stopped".toList) := by
  obtain ⟨run, cs, hstart, hlisting, hfind⟩ := Client.listing_of_found h
  obtain ⟨hsuccess, hread⟩ := Client.listing_eq_ok_iff.mp hlisting
  obtain ⟨json, hjson, hlist⟩ := Option.bind_eq_some_iff.mp hread
  obtain ⟨items, rfl, hitems⟩ := Json.exists_of_mem_list? hlist
  obtain ⟨j, hj, hcontainer⟩ := hitems found (List.mem_of_find?_eq_some hfind)
  obtain ⟨status, hreported, hstatus⟩ := status_of_container? hcontainer
  refine ⟨status,
    ⟨run, items, cs, j, hstart, hsuccess, hjson, hlist, hfind, hj, hcontainer, hreported⟩, ?_⟩
  rw [hstatus]
  exact ofText_eq_stopped_iff

/-! ### Containers in memory -/

/-- From one store to the other some requests have been accepted, and those of them have
    been carried out that were completed. -/
structure Ledger (s : Store) (dealings : Dealings) (s' : Store) : Prop where
  requests : s'.requests = s.requests ++ dealings.map (·.1)
  carried : CarryOut (completed dealings) s.containers s'.containers

theorem Ledger.refl (s : Store) : Ledger s [] s := ⟨by simp, .nil _⟩

theorem Ledger.trans {s s' s'' : Store} {dealings dealings' : Dealings} (h : Ledger s dealings s')
    (h' : Ledger s' dealings' s'') : Ledger s (dealings ++ dealings') s'' where
  requests := by rw [h'.requests, h.requests, List.map_append, List.append_assoc]
  carried := by
    rw [completed, List.filterMap_append]
    exact h.carried.append h'.carried

/-- A request that has been entered and answered. -/
theorem ledger_answer (s : Store) (patience : Patience) (request : Request) :
    Ledger s [(request, ((s.logged request).answer patience request).1)]
      ((s.logged request).answer patience request).2 := by
  rcases (s.logged request).answer_cases patience request with
    ⟨containers, hchanges, hanswer⟩ | ⟨e, hanswer⟩
  · rw [hanswer]
    exact ⟨rfl, .cons hchanges (.nil _)⟩
  · rw [hanswer]
    exact ⟨rfl, .nil _⟩

theorem accounting_store (patience : Patience) : Accounting patience Ledger where
  refl := .refl
  trans := fun _ _ _ _ _ h h' => h.trans h'
  perform := by
    intro request s
    rw [Store.run_perform]
    split
    · exact ⟨[], .refused _, .refl s⟩
    · split
      · have hledger := ledger_answer s patience request
        generalize (s.logged request).answer patience request = answer at hledger ⊢
        obtain ⟨result, s'⟩ := answer
        cases result with
        | ok u => exact ⟨_, .answered (.ok ()), hledger⟩
        | error e => exact ⟨_, .answered (.error e), hledger⟩
      · exact ⟨[], .refused _, .refl s⟩

theorem accounting_disturbed (patience : Patience) :
    Accounting patience fun (d : Disturbed) dealings d' => Ledger d.store dealings d'.store where
  refl := fun d => .refl d.store
  trans := fun _ _ _ _ _ h h' => h.trans h'
  perform := by
    intro request d
    rw [Disturbed.run_perform]
    split
    · exact ⟨[], .refused _, .refl d.store⟩
    · split
      · have hledger : Ledger d.store [(request, (d.answer patience request).1)]
            (d.answer patience request).2 := by
          unfold Disturbed.answer
          split
          · exact ⟨rfl, .nil _⟩
          · exact ledger_answer d.store patience request
        generalize d.answer patience request = answer at hledger ⊢
        obtain ⟨result, s'⟩ := answer
        cases result with
        | ok u => exact ⟨_, .answered (.ok ()), hledger⟩
        | error e => exact ⟨_, .answered (.error e), hledger⟩
      · exact ⟨[], .refused _, .refl d.store⟩

/-! ### What becomes of the containers -/

/-- A container that is there can be destroyed if nothing is in the way. -/
theorem destroy_succeeds {s : Store} {patience : Patience} {name : String}
    (hu : s.unreachable = false) (hf : s.failing = none) (hcancelled : patience.cancelled = false)
    (hcontains : s.containers.contains name = true) :
    succeeds ((destroy patience name).run s) = true := by
  obtain ⟨c, hc⟩ := Option.isSome_iff_exists.mp hcontains
  have hfind : (Service.container name : Action Store Container).run s = .ok c s := by
    rw [Store.service_container, Store.run_find, hu, hc]
    rfl
  have hdelete {s' : Store} {c' : Container} (hu' : s'.unreachable = false)
      (hf' : s'.failing = none) (hc' : s'.containers.get? name = some c') :
      succeeds ((Service.perform (.delete name) patience).run s') = true := by
    have hchange : (Request.delete name).change? c' = some none := rfl
    rw [Store.run_perform_of_change? hu' hf' hcancelled hchange hc']
    rfl
  unfold destroy
  rw [EStateM.run_bind, hfind]
  by_cases hstatus : c.status = .stopped
  · simp only [hstatus, ne_eq, not_true_eq_false, if_false]
    exact hdelete hu hf hc
  · have hchange : (Request.stop name true).change? c =
        some (some { c with status := .stopped, ipv4 := none }) := rfl
    simp only [ne_eq, hstatus, not_false_eq_true, if_true]
    rw [EStateM.run_bind, Store.run_perform_of_change? hu hf hcancelled hchange hc]
    exact hdelete hu hf ((Store.get?_withResult ..).trans (if_pos rfl))

/-- What a removal makes of the containers in memory. -/
structure Disposal (name : String) (s s' : Store) (result : Except Failure Unit) : Prop where
  gone : result = .ok () → s'.containers.get? name = none
  kept : ∀ e c, result = .error e → s.containers.get? name = some c →
    s'.containers.get? name = some c ∨
      s'.containers.get? name = some { c with status := .stopped, ipv4 := none }
  others : ∀ other, other ≠ name → s'.containers.get? other = s.containers.get? other
  /-- The removal can be made up for, once nothing is in its way. -/
  again : ∀ e, result = .error e → s'.containers.contains name = true →
    ∀ patience : Patience, patience.cancelled = false →
      succeeds ((destroy patience name).run
        { s' with unreachable := false, failing := none }) = true

theorem eq_of_carryOut_nil {before after : Dict String Container}
    (h : CarryOut [] before after) : after = before := by
  cases h
  rfl

theorem get?_of_carryOut_delete {name : String} {before after : Dict String Container}
    (h : CarryOut [.delete name] before after) (n : String) :
    after.get? n = if n = name then none else before.get? n := by
  cases h with
  | cons hdelete hrest =>
    obtain ⟨c, result, -, hchange, hget⟩ := hdelete
    cases hchange
    rw [eq_of_carryOut_nil hrest]
    exact hget n

theorem get?_of_carryOut_stop {name : String} {force : Bool} {rest : List Request}
    {before after : Dict String Container}
    (h : CarryOut (.stop name force :: rest) before after) :
    ∃ c between, before.get? name = some c ∧ CarryOut rest between after ∧
      ∀ n, between.get? n =
        if n = name then some { c with status := .stopped, ipv4 := none } else before.get? n := by
  cases h with
  | @cons _ _ _ between _ hstop hrest =>
    obtain ⟨c, result, hc, hchange, hget⟩ := hstop
    cases hchange
    exact ⟨c, between, hc, hrest, hget⟩

theorem Teardown.disposal {name : String} {found : Except Failure Container} {dealings : Dealings}
    {result : Except Failure Unit} {s s' : Store} (h : Teardown name found dealings result)
    (hcarried : CarryOut (completed dealings) s.containers s'.containers) :
    Disposal name s s' result := by
  have hagain (hcontains : s'.containers.contains name = true) (patience : Patience)
      (hcancelled : patience.cancelled = false) :
      succeeds ((destroy patience name).run
        { s' with unreachable := false, failing := none }) = true := by
    apply destroy_succeeds
    · rfl
    · rfl
    · exact hcancelled
    · exact hcontains
  rcases h.completed_cases with ⟨rfl, hdone | hdone⟩ | ⟨⟨e, rfl⟩, hdone | hdone⟩
  · rw [hdone] at hcarried
    have hget := get?_of_carryOut_delete hcarried
    exact ⟨by simp [hget], by simp, fun n hn => by simp [hget, hn], by simp⟩
  · rw [hdone] at hcarried
    obtain ⟨c, between, -, hdeleted, hstopped⟩ := get?_of_carryOut_stop hcarried
    have hget := get?_of_carryOut_delete hdeleted
    exact ⟨by simp [hget], by simp, fun n hn => by simp [hget, hstopped, hn], by simp⟩
  · rw [hdone] at hcarried
    have hsame := eq_of_carryOut_nil hcarried
    refine ⟨by simp, fun _ c _ hc => Or.inl ?_, fun n _ => by rw [hsame], fun _ _ => hagain⟩
    rw [hsame, hc]
  · rw [hdone] at hcarried
    obtain ⟨c, between, hc, hrest, hstopped⟩ := get?_of_carryOut_stop hcarried
    rw [← eq_of_carryOut_nil hrest] at hstopped
    refine ⟨by simp, fun _ c' _ hc' => Or.inr ?_, fun n hn => by simp [hstopped, hn],
      fun _ _ => hagain⟩
    rw [hc, Option.some.injEq] at hc'
    rw [hstopped, if_pos rfl, hc']

/-! ### All that there is to say -/

/-- A removal is accounted for from the moment the container has been looked for, and it
    is as every removal has to be. -/
def IsAccounted (patience : Patience) (name : String) (D : β → Dealings → β → Prop) (s : β) :
    Prop :=
  ∃ dealings, D (stateOf ((Service.container name).run s)) dealings
      (stateOf ((destroy patience name).run s)) ∧
    Removes name (resultOf ((Service.container name).run s)) dealings
      (resultOf ((destroy patience name).run s))

/-- Whatever the client does, and whatever state the memory is in, a removal makes its
    requests as it has to and succeeds if and only if the deletion was completed.  What
    counts for the client is the status that it has reported.  In memory the container is
    gone after a success, and otherwise it is stopped at most and can be destroyed later;
    the same holds if a wait is disturbed. -/
theorem destroy_accounted (patience : Patience) (name : String) :
    (∀ c : Client, IsAccounted patience name (Clientele patience) c ∧
        ∀ found, resultOf ((Service.container name).run c) = .ok found →
          ∃ status, IsListedAs c name found status ∧
            (found.status = .stopped ↔ status.toList.map Char.toLower = "stopped".toList)) ∧
      (∀ s : Store, IsAccounted patience name Ledger s ∧
        Disposal name s (stateOf ((destroy patience name).run s))
          (resultOf ((destroy patience name).run s))) ∧
      (∀ d : Disturbed,
        IsAccounted patience name (fun d dealings d' => Ledger d.store dealings d'.store) d ∧
        Disposal name d.store (stateOf ((destroy patience name).run d)).store
          (resultOf ((destroy patience name).run d))) := by
  refine ⟨fun c => ?_, fun s => ?_, fun d => ?_⟩
  · obtain ⟨dealings, hmade, hcourse⟩ := (accounting_client patience).teardown name c
    exact ⟨⟨dealings, hmade, hcourse.removes⟩, fun found => isListedAs_of_found⟩
  · obtain ⟨dealings, hmade, hcourse⟩ := (accounting_store patience).teardown name s
    have hcarried := hmade.carried
    rw [Store.service_container, Store.stateOf_find] at hcarried
    exact ⟨⟨dealings, hmade, hcourse.removes⟩, hcourse.disposal hcarried⟩
  · obtain ⟨dealings, hmade, hcourse⟩ := (accounting_disturbed patience).teardown name d
    have hcarried := hmade.carried
    have hfind : (stateOf ((Service.container name : Action Disturbed Container).run d)).store =
        d.store := by
      have hrun : (Service.container name : Action Disturbed Container).run d =
        (Disturbed.onStore (Store.find name)).run d := rfl
      have hsame := Store.stateOf_find d.store name
      rw [hrun, Disturbed.run_onStore]
      cases hr : (Store.find name).run d.store with
      | ok c s =>
        rw [hr] at hsame
        exact hsame
      | error e s =>
        rw [hr] at hsame
        exact hsame
    rw [hfind] at hcarried
    exact ⟨⟨dealings, hmade, hcourse.removes⟩, hcourse.disposal hcarried⟩

/-- Two build targets, one of them in use. -/
def runningFleet : Store :=
  .ofContainers [
    { Repair.plainTarget "c" .empty with status := .running, ipv4 := some "10.0.3.17" },
    Repair.plainTarget "d" .empty]

/-- The wait for the deletion is given up, so the container is there still, and stopped. -/
theorem destroy_accounted_runningFleet :
    let d : Disturbed := { store := runningFleet, calm := 1, how := .cancelled }
    let r := (destroy {} "c").run d
    succeeds r = false ∧ (stateOf r).store.requests = [.stop "c" true, .delete "c"] ∧
      (stateOf r).store.containers.get? "c" = some (Repair.plainTarget "c" .empty) ∧
      IsAccounted {} "c" (fun d dealings d' => Ledger d.store dealings d'.store) d ∧
      Disposal "c" runningFleet (stateOf r).store (resultOf r) := by
  intro d r
  have hrun : succeeds r = false ∧
      (stateOf r).store.requests = [.stop "c" true, .delete "c"] ∧
      (stateOf r).store.containers.get? "c" = some (Repair.plainTarget "c" .empty) := by
    decide +kernel
  obtain ⟨haccounted, hdisposal⟩ := (destroy_accounted {} "c").2.2 d
  exact ⟨hrun.1, hrun.2.1, hrun.2.2, haccounted, hdisposal⟩

end BuildTargets.Fleet
