/-
  BuildTargets/Proofs/Store/History.lean
  ======================================
  **What a store has been told, and what it answers.**

  A store is used by a series of acts: containers are put into it, requests are
  made, operations are waited for, and it is told to be unreachable or to fail.
  The acts and the replies to them are its *history*, and the history says all there
  is to say about operations: an operation is open from the moment its request is
  accepted until the first wait for its number, whatever came of that wait
  (`IsOpen`).

  One step of a store is described in terms of the history alone (`Replies`), and
  `replies_act` is the step lemma.  `bears_play` carries the account of a history
  over a whole run.
-/
import BuildTargets.Proofs.Store
import Mathlib.Data.List.Induction

namespace BuildTargets

/-! ### Carrying out a request -/

namespace Request

/-- What carrying out a request makes of its container, which may be gone
    afterwards.  Some requests cannot be carried out. -/
def change? : Request → Container → Option (Option Container)
  | addDevice _ name device, c =>
    if c.hasDevice name then none
    else some (some { c with devices := c.devices.insert name device })
  | removeDevice _ name, c =>
    if c.hasDevice name then some (some { c with devices := c.devices.erase name }) else none
  | stop _ _, c => some (some { c with status := .stopped, ipv4 := none })
  | delete _, _ => some none

/-- Carrying out the request turns some containers into others: the container that
    it names is changed as it asks, and no other. -/
def Changes (request : Request) (before after : Dict String Container) : Prop :=
  ∃ c result, before.get? request.container = some c ∧ request.change? c = some result ∧
    ∀ n, after.get? n = if n = request.container then result else before.get? n

theorem name_of_change? {request : Request} {c c' : Container}
    (h : request.change? c = some (some c')) : c'.name = c.name := by
  cases request with
  | addDevice n name device =>
    simp only [change?] at h
    split at h
    · cases h
    · cases h
      rfl
  | removeDevice n name =>
    simp only [change?] at h
    split at h
    · cases h
      rfl
    · cases h
  | stop n force =>
    cases h
    rfl
  | delete n => cases h

theorem Changes.keyed {request : Request} {before after : Dict String Container}
    (h : request.Changes before after) (hkeyed : ∀ n c, before.get? n = some c → c.name = n) :
    ∀ n c, after.get? n = some c → c.name = n := by
  obtain ⟨c, result, hc, hchange, hget⟩ := h
  intro n c' hc'
  rw [hget] at hc'
  split at hc'
  · next hn =>
    subst hc'
    rw [name_of_change? hchange, hkeyed _ c hc, hn]
  · exact hkeyed n c' hc'

end Request

namespace Store

variable {s s' : Store} {request : Request} {op : Operation} {patience : Patience} {n : String}

/-- The store with a container replaced, or taken away. -/
def withResult (s : Store) (n : String) : Option Container → Store
  | some c => { s with containers := s.containers.insert n c }
  | none => { s with containers := s.containers.erase n }

theorem get?_withResult (s : Store) (n : String) (result : Option Container) (n' : String) :
    (s.withResult n result).containers.get? n' =
      if n' = n then result else s.containers.get? n' := by
  cases result with
  | some c => exact Dict.get?_insert ..
  | none => exact Dict.get?_erase ..

theorem withResult_eq (s : Store) (n : String) (result : Option Container) :
    s.withResult n result = { s with containers := (s.withResult n result).containers } := by
  cases result <;> rfl

theorem apply_of_change? {c : Container} {result : Option Container}
    (hc : s.containers.get? request.container = some c) (h : request.change? c = some result) :
    s.apply request = (.success, s.withResult request.container result) := by
  cases request with
  | addDevice n name device =>
    simp only [Request.change?] at h
    split at h
    · cases h
    · next hd =>
      cases h
      have hn : s.containers.get? n = some c := hc
      rw [apply_addDevice hn, if_neg hd]
      rfl
  | removeDevice n name =>
    simp only [Request.change?] at h
    split at h
    · next hd =>
      cases h
      have hn : s.containers.get? n = some c := hc
      rw [apply_removeDevice hn, if_pos hd]
      rfl
    · cases h
  | stop n force =>
    cases h
    have hn : s.containers.get? n = some c := hc
    simp only [apply, Request.container, hn, modify]
    rfl
  | delete n =>
    cases h
    have hn : s.containers.get? n = some c := hc
    simp only [apply, Request.container, hn]
    rfl

/-- A request that can be carried out succeeds if nothing is in its way. -/
theorem answer_of_change? (hf : s.failing = none) (hcancelled : patience.cancelled = false)
    {c : Container} {result : Option Container}
    (hc : s.containers.get? request.container = some c)
    (hchange : request.change? c = some result) :
    s.answer patience request = (.ok (), s.withResult request.container result) := by
  rw [answer, hcancelled, hf, apply_of_change? hc hchange]
  rfl

theorem run_perform_of_change? (hu : s.unreachable = false) (hf : s.failing = none)
    (hcancelled : patience.cancelled = false) {c : Container} {result : Option Container}
    (hchange : request.change? c = some result)
    (hc : s.containers.get? request.container = some c) :
    (Service.perform request patience).run s =
      .ok () ((s.logged request).withResult request.container result) := by
  have hcontains : s.containers.contains request.container = true := by
    rw [Dict.contains, hc]
    rfl
  have hfaultless : (s.logged request).failing = none := hf
  have hfound : (s.logged request).containers.get? request.container = some c := hc
  rw [Store.run_perform, hu, hcontains, answer_of_change? hfaultless hcancelled hfound hchange]
  rfl

theorem apply_of_no_change {c : Container} (hc : s.containers.get? request.container = some c)
    (h : request.change? c = none) : ∃ detail, s.apply request = (.failure detail, s) := by
  cases request with
  | addDevice n name device =>
    simp only [Request.change?] at h
    split at h
    · next hd =>
      have hn : s.containers.get? n = some c := hc
      exact ⟨_, by rw [apply_addDevice hn, if_pos hd]⟩
    · cases h
  | removeDevice n name =>
    simp only [Request.change?] at h
    split at h
    · cases h
    · next hd =>
      have hn : s.containers.get? n = some c := hc
      exact ⟨_, by rw [apply_removeDevice hn, if_neg hd]⟩
  | stop n force => cases h
  | delete n => cases h

theorem apply_of_absent (h : s.containers.get? request.container = none) :
    ∃ detail, s.apply request = (.failure detail, s) := by
  cases request <;> simp only [apply, Request.container] at h ⊢ <;> rw [h] <;> exact ⟨_, rfl⟩

/-- A request is carried out, and then nothing else has changed, or it cannot be
    carried out, and then nothing has changed at all. -/
theorem apply_cases (s : Store) (request : Request) :
    (∃ containers, request.Changes s.containers containers ∧
      s.apply request = (.success, { s with containers := containers })) ∨
    (∀ containers, ¬request.Changes s.containers containers) ∧
      ∃ detail, s.apply request = (.failure detail, s) := by
  cases hc : s.containers.get? request.container with
  | none =>
    refine Or.inr ⟨?_, apply_of_absent hc⟩
    rintro containers ⟨c, result, hc', -⟩
    rw [hc] at hc'
    cases hc'
  | some c =>
    cases hchange : request.change? c with
    | none =>
      refine Or.inr ⟨?_, apply_of_no_change hc hchange⟩
      rintro containers ⟨c', result, hc', hchange', -⟩
      rw [hc] at hc'
      cases hc'
      rw [hchange] at hchange'
      cases hchange'
    | some result =>
      refine Or.inl ⟨(s.withResult request.container result).containers, ?_, ?_⟩
      · exact ⟨c, result, hc, hchange, s.get?_withResult request.container result⟩
      · rw [apply_of_change? hc hchange, ← withResult_eq]

/-! ### Waiting for an operation -/

theorem run_finish_of_unknown (h : s.pending.get? op.id = none) :
    (finish op patience).run s =
      .error (.unexpectedAnswer ("unknown operation " ++ op.text)) s := by
  rw [finish, EStateM.run_bind, EStateM.run_get]
  dsimp only
  rw [h]
  rfl

/-- A store with an operation taken from those that are pending. -/
def without (s : Store) (id : Nat) : Store := { s with pending := s.pending.erase id }

theorem run_finish_of_pending (h : s.pending.get? op.id = some request) :
    (finish op patience).run s =
      if patience.cancelled then .error (.operationCancelled op.description) (s.without op.id)
      else match s.failing with
        | some detail => .ok (.failure detail) (s.without op.id)
        | none => .ok ((s.without op.id).apply request).1 ((s.without op.id).apply request).2 := by
  rw [finish, EStateM.run_bind, EStateM.run_get]
  dsimp only
  rw [h]
  dsimp only
  rw [EStateM.run_bind, EStateM.run_set]
  dsimp only [without]
  cases patience.cancelled with
  | true => rfl
  | false => cases s.failing <;> rfl

/-! ### Histories -/

/-- Something that is done to a store. -/
inductive Act where
  | insert (c : Container)
  | setUnreachable (unreachable : Bool)
  | setFailing (failing : Option String)
  | submit (request : Request)
  | await (op : Operation) (patience : Patience)

/-- What comes back from an act. -/
inductive Reply where
  | done
  | accepted (op : Operation)
  | ended (outcome : Outcome)
  | refused (e : Failure)

abbrev History := List (Act × Reply)

def act (s : Store) : Act → Reply × Store
  | .insert c => (.done, s.insert c)
  | .setUnreachable unreachable => (.done, { s with unreachable := unreachable })
  | .setFailing failing => (.done, { s with failing := failing })
  | .submit request => match (accept request).run s with
    | .ok op s' => (.accepted op, s')
    | .error e s' => (.refused e, s')
  | .await op patience => match (finish op patience).run s with
    | .ok outcome s' => (.ended outcome, s')
    | .error e s' => (.refused e, s')

/-- The history of some acts, and the store that they leave. -/
def play (s : Store) : List Act → History × Store
  | [] => ([], s)
  | a :: acts =>
    let (reply, s') := s.act a
    let (h, s'') := s'.play acts
    ((a, reply) :: h, s'')

theorem play_concat (s : Store) (acts : List Act) (a : Act) :
    s.play (acts ++ [a]) =
      ((s.play acts).1 ++ [(a, ((s.play acts).2.act a).1)], ((s.play acts).2.act a).2) := by
  induction acts generalizing s with
  | nil => rfl
  | cons b acts ih => simp only [List.cons_append, play, ih]

namespace History

variable {h : History} {id : Nat}

/-- The requests that were accepted, with their operations, in order. -/
def accepted (h : History) : List (Operation × Request) :=
  h.filterMap fun
    | (.submit request, .accepted op) => some (op, request)
    | _ => none

/-- A request has been accepted under a number that has not been waited for since. -/
def IsOpen (h : History) (id : Nat) (request : Request) : Prop :=
  ∃ before op after, h = before ++ (.submit request, .accepted op) :: after ∧ op.id = id ∧
    ∀ op' patience reply, (.await op' patience, reply) ∈ after → op'.id ≠ id

theorem IsOpen.mem_accepted (hopen : h.IsOpen id request) :
    ∃ op, op.id = id ∧ (op, request) ∈ h.accepted := by
  obtain ⟨before, op, after, rfl, hid, -⟩ := hopen
  refine ⟨op, hid, ?_⟩
  rw [accepted, List.filterMap_append]
  exact List.mem_append_right _ (List.mem_cons_self ..)

/-- What one more exchange makes of the open operations: a wait closes the one of
    its number, and an accepted request opens one. -/
theorem isOpen_concat (h : History) (a : Act) (reply : Reply) (id : Nat) (request : Request) :
    IsOpen (h ++ [(a, reply)]) id request ↔
      h.IsOpen id request ∧ (∀ op patience, a = .await op patience → op.id ≠ id) ∨
        ∃ op, a = .submit request ∧ reply = .accepted op ∧ op.id = id := by
  constructor
  · rintro ⟨before, op, after, heq, hid, hnot⟩
    rcases List.eq_nil_or_concat after with rfl | ⟨after', last, rfl⟩
    · obtain ⟨-, hlast⟩ := List.append_inj' heq rfl
      cases hlast
      exact Or.inr ⟨op, rfl, rfl, hid⟩
    · rw [List.concat_eq_append, ← List.cons_append, ← List.append_assoc] at heq
      obtain ⟨hh, hlast⟩ := List.append_inj' heq rfl
      cases hlast
      rw [List.concat_eq_append] at hnot
      refine Or.inl ⟨⟨before, op, after', hh, hid, fun op' patience reply' hmem => ?_⟩, ?_⟩
      · exact hnot op' patience reply' (List.mem_append_left _ hmem)
      · rintro op' patience rfl
        exact hnot op' patience reply (List.mem_append_right _ (List.mem_singleton_self _))
  · rintro (⟨⟨before, op, after, rfl, hid, hnot⟩, ha⟩ | ⟨op, rfl, rfl, hid⟩)
    · refine ⟨before, op, after ++ [(a, reply)], by simp, hid, fun op' patience reply' hmem => ?_⟩
      rcases List.mem_append.mp hmem with hmem | hmem
      · exact hnot op' patience reply' hmem
      · cases List.mem_singleton.mp hmem
        exact ha op' patience rfl
    · exact ⟨h, op, [], rfl, hid, fun _ _ _ hmem => absurd hmem List.not_mem_nil⟩

end History

/-! ### One step -/

/-- How a store with a history replies to an act, and what it is afterwards. -/
inductive Replies (h : History) (s : Store) : Act → Reply → Store → Prop where
  /-- A container takes the place of one of its name. -/
  | inserted (c : Container) (containers : Dict String Container)
      (hget : ∀ n, containers.get? n = if n = c.name then some c else s.containers.get? n) :
      Replies h s (.insert c) .done { s with containers := containers }
  | switched (unreachable : Bool) :
      Replies h s (.setUnreachable unreachable) .done { s with unreachable := unreachable }
  | told (failing : Option String) :
      Replies h s (.setFailing failing) .done { s with failing := failing }
  | unreachable (request : Request) (hu : s.unreachable = true) :
      Replies h s (.submit request) (.refused (.unreachable "backend is unreachable")) s
  | absent (request : Request) (hu : s.unreachable = false)
      (hc : s.containers.get? request.container = none) :
      Replies h s (.submit request) (.refused (.noContainer request.container)) s
  /-- The request is noted under the next number; the containers are as they were. -/
  | accepted (request : Request) (c : Container) (hu : s.unreachable = false)
      (hc : s.containers.get? request.container = some c) :
      Replies h s (.submit request) (.accepted ⟨h.accepted.length + 1, request.description⟩)
        { s with
          requests := s.requests ++ [request]
          pending := s.pending.insert (h.accepted.length + 1) request
          lastId := h.accepted.length + 1 }
  /-- There is no operation of this number, or not any more. -/
  | unknown (op : Operation) (patience : Patience)
      (hopen : ∀ request, ¬h.IsOpen op.id request) :
      Replies h s (.await op patience)
        (.refused (.unexpectedAnswer ("unknown operation " ++ op.text))) s
  | cancelled (op : Operation) (patience : Patience) (request : Request)
      (hopen : h.IsOpen op.id request) (hcancelled : patience.cancelled = true) :
      Replies h s (.await op patience) (.refused (.operationCancelled op.description))
        { s with pending := s.pending.erase op.id }
  | failed (op : Operation) (patience : Patience) (request : Request) (detail : String)
      (hopen : h.IsOpen op.id request) (hcancelled : patience.cancelled = false)
      (hfailing : s.failing = some detail) :
      Replies h s (.await op patience) (.ended (.failure detail))
        { s with pending := s.pending.erase op.id }
  /-- The request cannot be carried out on the containers that there are now. -/
  | impossible (op : Operation) (patience : Patience) (request : Request) (detail : String)
      (hopen : h.IsOpen op.id request) (hcancelled : patience.cancelled = false)
      (hfailing : s.failing = none)
      (hno : ∀ containers, ¬request.Changes s.containers containers) :
      Replies h s (.await op patience) (.ended (.failure detail))
        { s with pending := s.pending.erase op.id }
  | carriedOut (op : Operation) (patience : Patience) (request : Request)
      (containers : Dict String Container) (hopen : h.IsOpen op.id request)
      (hcancelled : patience.cancelled = false) (hfailing : s.failing = none)
      (hchanges : request.Changes s.containers containers) :
      Replies h s (.await op patience) (.ended .success)
        { s with pending := s.pending.erase op.id, containers := containers }

/-- What a store keeps of its history. -/
structure Bears (h : History) (s : Store) : Prop where
  ids : h.accepted.map (·.1.id) = List.range' 1 h.accepted.length
  requests : s.requests = h.accepted.map (·.2)
  lastId : s.lastId = h.accepted.length
  pending : ∀ id request, s.pending.get? id = some request ↔ h.IsOpen id request
  keyed : s.IsKeyed

namespace Bears

variable {h : History} {id : Nat} {a : Act} {reply : Reply}

theorem le_of_isOpen (hb : Bears h s) (hopen : h.IsOpen id request) : id ≤ h.accepted.length := by
  obtain ⟨op, rfl, hmem⟩ := hopen.mem_accepted
  have hid : op.id ∈ h.accepted.map (·.1.id) := List.mem_map.mpr ⟨_, hmem, rfl⟩
  rw [hb.ids, List.mem_range'_1] at hid
  omega

/-- An act that is neither an accepted request nor a wait leaves the account as it
    was. -/
theorem of_idle (hb : Bears h s) (hsubmit : ∀ request op, ¬(a = .submit request ∧ reply = .accepted op))
    (hawait : ∀ op patience request, a = .await op patience → ¬h.IsOpen op.id request)
    (hrequests : s'.requests = s.requests) (hpending : s'.pending = s.pending)
    (hlast : s'.lastId = s.lastId) (hkeyed : s'.IsKeyed) : Bears (h ++ [(a, reply)]) s' := by
  have haccepted : History.accepted (h ++ [(a, reply)]) = h.accepted := by
    rw [History.accepted, List.filterMap_append]
    refine (congrArg (h.accepted ++ ·) ?_).trans (List.append_nil _)
    simp only [List.filterMap_cons, List.filterMap_nil]
    split
    · rfl
    · next heq =>
      split at heq
      · next request op hpair =>
        cases hpair
        exact absurd ⟨rfl, rfl⟩ (hsubmit request op)
      · cases heq
  refine ⟨?_, ?_, ?_, fun id request => ?_, hkeyed⟩
  · rw [haccepted, hb.ids]
  · rw [haccepted, hrequests, hb.requests]
  · rw [haccepted, hlast, hb.lastId]
  · rw [hpending, hb.pending, History.isOpen_concat]
    constructor
    · intro hopen
      refine Or.inl ⟨hopen, fun op patience ha hid => ?_⟩
      subst hid
      exact hawait op patience request ha hopen
    · rintro (⟨hopen, -⟩ | ⟨op, ha, hreply, -⟩)
      · exact hopen
      · exact absurd ⟨ha, hreply⟩ (hsubmit request op)

theorem of_accepted (hb : Bears h s) (request : Request) {text : String} :
    Bears (h ++ [(.submit request, .accepted ⟨h.accepted.length + 1, text⟩)])
      { s with
        requests := s.requests ++ [request]
        pending := s.pending.insert (h.accepted.length + 1) request
        lastId := h.accepted.length + 1 } := by
  have haccepted : History.accepted
      (h ++ [(.submit request, .accepted ⟨h.accepted.length + 1, text⟩)]) =
        h.accepted ++ [(⟨h.accepted.length + 1, text⟩, request)] := by
    rw [History.accepted, List.filterMap_append]
    rfl
  refine ⟨?_, ?_, ?_, fun id r => ?_, hb.keyed⟩
  · rw [haccepted, List.map_append, List.length_append, hb.ids, List.length_singleton,
      List.range'_1_concat, Nat.add_comm 1]
    rfl
  · rw [haccepted, List.map_append, ← hb.requests]
    rfl
  · rw [haccepted, List.length_append, List.length_singleton]
  · rw [History.isOpen_concat, Dict.get?_insert]
    constructor
    · intro hget
      split at hget
      · next hid =>
        cases hget
        exact Or.inr ⟨_, rfl, rfl, hid.symm⟩
      · exact Or.inl ⟨(hb.pending id r).mp hget, fun op patience ha => by cases ha⟩
    · rintro (⟨hopen, -⟩ | ⟨op, ha, hreply, hid⟩)
      · have hle := hb.le_of_isOpen hopen
        rw [if_neg (by omega)]
        exact (hb.pending id r).mpr hopen
      · cases ha
        cases hreply
        rw [if_pos hid.symm]

theorem of_awaited (hb : Bears h s) {containers : Dict String Container}
    (hkeyed : ∀ name c, containers.get? name = some c → c.name = name) :
    Bears (h ++ [(.await op patience, reply)])
      { s with pending := s.pending.erase op.id, containers := containers } := by
  have haccepted : History.accepted (h ++ [(.await op patience, reply)]) = h.accepted := by
    rw [History.accepted, List.filterMap_append]
    exact List.append_nil _
  refine ⟨?_, ?_, ?_, fun id r => ?_, hkeyed⟩
  · rw [haccepted, hb.ids]
  · rw [haccepted, hb.requests]
  · rw [haccepted, hb.lastId]
  · rw [History.isOpen_concat, Dict.get?_erase]
    constructor
    · intro hget
      split at hget
      · cases hget
      · next hid =>
        refine Or.inl ⟨(hb.pending id r).mp hget, fun op' patience' ha heq => ?_⟩
        cases ha
        exact hid heq.symm
    · rintro (⟨hopen, hne⟩ | ⟨op', ha, -⟩)
      · rw [if_neg fun heq => hne op patience rfl heq.symm]
        exact (hb.pending id r).mpr hopen
      · cases ha

end Bears

theorem replies_act {h : History} (hb : Bears h s) (a : Act) :
    Replies h s a (s.act a).1 (s.act a).2 := by
  cases a with
  | insert c => exact .inserted c _ fun n => Dict.get?_insert ..
  | setUnreachable unreachable => exact .switched unreachable
  | setFailing failing => exact .told failing
  | submit request =>
    simp only [act]
    rw [run_accept_eq]
    cases hu : s.unreachable with
    | true => exact .unreachable request hu
    | false =>
      cases hc : s.containers.get? request.container with
      | none =>
        have hcontains : s.containers.contains request.container = false := by
          rw [Dict.contains, hc]
          rfl
        rw [hcontains]
        exact .absent request hu hc
      | some c =>
        have hcontains : s.containers.contains request.container = true := by
          rw [Dict.contains, hc]
          rfl
        rw [hcontains]
        simp only [Bool.false_eq_true, if_false, if_true, pendingWith]
        rw [hb.lastId]
        exact .accepted request c hu hc
  | await op patience =>
    simp only [act]
    cases hpending : s.pending.get? op.id with
    | none =>
      rw [run_finish_of_unknown hpending]
      refine .unknown op patience fun request hopen => ?_
      rw [← hb.pending, hpending] at hopen
      cases hopen
    | some request =>
      have hopen : h.IsOpen op.id request := (hb.pending op.id request).mp hpending
      rw [run_finish_of_pending hpending]
      cases hcancelled : patience.cancelled with
      | true => exact .cancelled op patience request hopen hcancelled
      | false =>
        cases hfailing : s.failing with
        | some detail => exact .failed op patience request detail hopen hcancelled hfailing
        | none =>
          simp only [Bool.false_eq_true, if_false]
          rcases (s.without op.id).apply_cases request with
            ⟨containers, hchanges, happly⟩ | ⟨hno, detail, happly⟩
          · rw [happly]
            exact .carriedOut op patience request containers hopen hcancelled hfailing hchanges
          · rw [happly]
            exact .impossible op patience request detail hopen hcancelled hfailing hno

/-! ### Whole runs -/

theorem Bears.after {h : History} {a : Act} {reply : Reply} (hb : Bears h s)
    (hreplies : Replies h s a reply s') : Bears (h ++ [(a, reply)]) s' := by
  cases hreplies with
  | inserted c containers hget =>
    refine hb.of_idle (fun _ _ => by simp) (fun _ _ _ ha => by cases ha) rfl rfl rfl ?_
    intro n c' hc'
    have hc' : containers.get? n = some c' := hc'
    rw [hget] at hc'
    split at hc'
    · next hn =>
      cases hc'
      exact hn.symm
    · exact hb.keyed n c' hc'
  | switched unreachable =>
    exact hb.of_idle (fun _ _ => by simp) (fun _ _ _ ha => by cases ha) rfl rfl rfl hb.keyed
  | told failing =>
    exact hb.of_idle (fun _ _ => by simp) (fun _ _ _ ha => by cases ha) rfl rfl rfl hb.keyed
  | unreachable request hu =>
    exact hb.of_idle (fun _ _ => by simp) (fun _ _ _ ha => by cases ha) rfl rfl rfl hb.keyed
  | absent request hu hc =>
    exact hb.of_idle (fun _ _ => by simp) (fun _ _ _ ha => by cases ha) rfl rfl rfl hb.keyed
  | accepted request c hu hc => exact hb.of_accepted request
  | unknown op patience hopen =>
    refine hb.of_idle (fun _ _ => by simp) (fun op' patience' request ha => ?_) rfl rfl rfl hb.keyed
    cases ha
    exact hopen request
  | cancelled op patience request hopen hcancelled => exact hb.of_awaited hb.keyed
  | failed op patience request detail hopen hcancelled hfailing => exact hb.of_awaited hb.keyed
  | impossible op patience request detail hopen hcancelled hfailing hno =>
    exact hb.of_awaited hb.keyed
  | carriedOut op patience request containers hopen hcancelled hfailing hchanges =>
    exact hb.of_awaited (hchanges.keyed hb.keyed)

theorem bears_nil (cs : List Container) : Bears [] (ofContainers cs) := by
  have hfold (s : Store) (h : s.requests = [] ∧ s.pending = .empty ∧ s.lastId = 0) :
      (cs.foldl insert s).requests = [] ∧ (cs.foldl insert s).pending = .empty ∧
        (cs.foldl insert s).lastId = 0 := by
    induction cs generalizing s with
    | nil => exact h
    | cons c cs ih => exact ih (s.insert c) h
  obtain ⟨hrequests, hpending, hlast⟩ := hfold {} ⟨rfl, rfl, rfl⟩
  refine ⟨rfl, hrequests, hlast, fun id request => ?_, isKeyed_ofContainers cs⟩
  constructor
  · intro hget
    have hget : (cs.foldl insert {}).pending.get? id = some request := hget
    rw [hpending] at hget
    cases hget
  · rintro ⟨before, op, after, heq, -⟩
    cases before <;> cases heq

/-- After any acts, a store has kept the account of its history. -/
theorem bears_play (cs : List Container) (acts : List Act) :
    Bears ((ofContainers cs).play acts).1 ((ofContainers cs).play acts).2 := by
  induction acts using List.reverseRecOn with
  | nil => exact bears_nil cs
  | append_singleton acts a ih =>
    rw [play_concat]
    exact ih.after (replies_act ih a)

/-! ### Listings -/

/-- A store that can be reached lists its containers in strictly ascending order of
    their names, and finds by a name the container that it lists under it. -/
def ListsByName (s : Store) : Prop :=
  if s.unreachable then
    listAll.run s = .error (.unreachable "backend is unreachable") s ∧
      ∀ n, (find n).run s = .error (.unreachable "backend is unreachable") s
  else ∃ cs, listAll.run s = .ok cs s ∧ cs.Pairwise (fun c c' => c.name < c'.name) ∧
    ∀ n, (∃ c ∈ cs, c.name = n ∧ (find n).run s = .ok c s) ∨
      (∀ c ∈ cs, c.name ≠ n) ∧ (find n).run s = .error (.noContainer n) s

theorem IsKeyed.mem_values (h : s.IsKeyed) {c : Container} :
    c ∈ s.containers.values ↔ s.containers.get? c.name = some c := by
  rw [Dict.values, List.mem_map]
  constructor
  · rintro ⟨⟨n, c'⟩, hmem, rfl⟩
    have hget : s.containers.get? n = some c' := Dict.get?_eq_some_iff.mpr hmem
    rw [h n c' hget]
    exact hget
  · intro hget
    exact ⟨(c.name, c), Dict.get?_eq_some_iff.mp hget, rfl⟩

theorem IsKeyed.pairwise_values (h : s.IsKeyed) :
    s.containers.values.Pairwise (fun c c' => c.name < c'.name) := by
  rw [Dict.values, List.pairwise_map]
  refine s.containers.sorted.imp_of_mem fun {x y} hx hy hlt => ?_
  rw [h x.1 x.2 (Dict.get?_eq_some_iff.mpr hx), h y.1 y.2 (Dict.get?_eq_some_iff.mpr hy)]
  exact hlt

theorem IsKeyed.listsByName (h : s.IsKeyed) : s.ListsByName := by
  rw [ListsByName, run_listAll]
  split
  · next hu =>
    refine ⟨rfl, fun n => ?_⟩
    rw [run_find, if_pos hu]
  · next hu =>
    refine ⟨_, rfl, h.pairwise_values, fun n => ?_⟩
    rw [run_find, if_neg hu]
    cases hc : s.containers.get? n with
    | some c =>
      have hname : c.name = n := h n c hc
      refine Or.inl ⟨c, h.mem_values.mpr ?_, hname, rfl⟩
      rw [hname]
      exact hc
    | none =>
      refine Or.inr ⟨fun c hmem hname => ?_, rfl⟩
      rw [h.mem_values, hname, hc] at hmem
      cases hmem

/-- Whatever has been done to a store: the requests that it accepted have the numbers
    from one on and stand in its list in their order; exactly the operations not
    yet waited for are pending; it lists its containers by name; and it meets
    whatever is done next as its history says. -/
theorem play_accountable (cs : List Container) (acts : List Act) (a : Act) :
    let h := ((ofContainers cs).play acts).1
    let s := ((ofContainers cs).play acts).2
    h.accepted.map (·.1.id) = List.range' 1 h.accepted.length ∧
      s.requests = h.accepted.map (·.2) ∧
      (∀ id request, s.pending.get? id = some request ↔ h.IsOpen id request) ∧
      s.ListsByName ∧ Replies h s a (s.act a).1 (s.act a).2 := by
  intro h s
  have hb : Bears h s := bears_play cs acts
  exact ⟨hb.ids, hb.requests, hb.pending, hb.keyed.listsByName, replies_act hb a⟩

end Store

end BuildTargets
