/-
  BuildTargets/Proofs/Store/Disturbed.lean
  ========================================
  **A store with one wait that does not succeed.**

  To speak of a run that is interrupted, a store is put behind a service that
  counts the waits.  Queries and requests go to the store; so do waits, but for
  one, which fails or is given up.  Apart from this one, requests on the disturbed
  store come to what they come to on the store itself (`World.run_perform_calm`),
  and the one that is disturbed is entered and not carried out
  (`World.run_perform_disturbed`).
-/
import BuildTargets.Proofs.Store

namespace BuildTargets

/-- How a wait is kept from succeeding. -/
inductive Disturbance where
  /-- The operation reports a failure. -/
  | failure (detail : String)
  /-- The wait is given up. -/
  | cancelled

/-- What a request ends in whose wait is disturbed. -/
def Disturbance.failureOf (how : Disturbance) (request : Request) : Failure :=
  match how with
  | failure detail => .operationFailed request.description detail
  | cancelled => .operationCancelled request.description

/-- A store behind a service that lets some waits pass and disturbs the next. -/
structure Disturbed where
  store : Store
  /-- The number of waits that are left alone. -/
  calm : Nat
  how : Disturbance
  /-- The number of waits so far. -/
  waits : Nat := 0

namespace Disturbed

variable {α : Type}

def onStore (action : Action Store α) : Action Disturbed α := fun d =>
  match action d.store with
  | .ok a s => .ok a { d with store := s }
  | .error e s => .error e { d with store := s }

/-- Runs an action on a store that is told to fail for as long as it runs. -/
def telling (detail : String) (action : Action Store α) : Action Store α := fun s =>
  match action { s with failing := some detail } with
  | .ok a s' => .ok a { s' with failing := s.failing }
  | .error e s' => .error e { s' with failing := s.failing }

def disturb (how : Disturbance) (op : Operation) (patience : Patience) : Action Store Outcome :=
  match how with
  | .failure detail => telling detail (Store.finish op { patience with cancelled := false })
  | .cancelled => Store.finish op { patience with cancelled := true }

def await (op : Operation) (patience : Patience) : Action Disturbed Outcome := do
  let d ← get
  set { d with waits := d.waits + 1 }
  if d.waits = d.calm then onStore (disturb d.how op patience)
  else onStore (Store.finish op patience)

instance : Service Disturbed where
  containers := onStore Store.listAll
  container name := onStore (Store.find name)
  submit request := onStore (Store.accept request)
  await := await

theorem run_onStore (action : Action Store α) (d : Disturbed) :
    (onStore action).run d = match action.run d.store with
      | .ok a s => .ok a { d with store := s }
      | .error e s => .error e { d with store := s } := rfl

theorem run_telling (detail : String) (action : Action Store α) (s : Store) :
    (telling detail action).run s = match action.run { s with failing := some detail } with
      | .ok a s' => .ok a { s' with failing := s.failing }
      | .error e s' => .error e { s' with failing := s.failing } := rfl

theorem run_disturb_pendingWith (how : Disturbance) (s : Store) (patience : Patience)
    (request : Request) :
    (disturb how ⟨s.lastId + 1, request.description⟩ patience).run (s.pendingWith request) =
      match how with
      | .failure detail => .ok (.failure detail) (s.logged request)
      | .cancelled => .error (.operationCancelled request.description) (s.logged request) := by
  cases how with
  | failure detail =>
    have htold : { s.pendingWith request with failing := some detail } =
      ({ s with failing := some detail } : Store).pendingWith request := rfl
    have hfinish := Store.run_finish_pendingWith (s := { s with failing := some detail })
      { patience with cancelled := false } request
    simp only [Bool.false_eq_true, if_false] at hfinish
    unfold disturb
    dsimp only
    rw [run_telling, htold, hfinish]
    rfl
  | cancelled =>
    have hfinish := Store.run_finish_pendingWith (s := s) { patience with cancelled := true } request
    simp only [if_true] at hfinish
    exact hfinish

/-- Takes an operation that has failed for a failure. -/
def settling (op : Operation) (wait : Action Store Outcome) : Action Store Unit := do
  match ← wait with
  | .success => return
  | .failure detail => throw (.operationFailed op.description detail)

theorem run_settle (op : Operation) (patience : Patience) (d : Disturbed) :
    (Service.settle op patience).run d =
      match (settling op (if d.waits = d.calm then disturb d.how op patience
        else Store.finish op patience)).run d.store with
      | .ok u s => .ok u { d with store := s, waits := d.waits + 1 }
      | .error e s => .error e { d with store := s, waits := d.waits + 1 } := by
  have hawait : (Service.await op patience : Action Disturbed Outcome).run d =
      match (if d.waits = d.calm then disturb d.how op patience
        else Store.finish op patience).run d.store with
      | .ok outcome s => .ok outcome { d with store := s, waits := d.waits + 1 }
      | .error e s => .error e { d with store := s, waits := d.waits + 1 } := by
    change (await op patience).run d = _
    unfold await
    rw [EStateM.run_bind, EStateM.run_get]
    dsimp only
    rw [EStateM.run_bind, EStateM.run_set]
    dsimp only
    split
    · rw [run_onStore]
      cases (disturb d.how op patience).run d.store <;> rfl
    · rw [run_onStore]
      cases (Store.finish op patience).run d.store <;> rfl
  unfold Service.settle settling
  rw [EStateM.run_bind, EStateM.run_bind, hawait]
  cases (if d.waits = d.calm then disturb d.how op patience
    else Store.finish op patience).run d.store with
  | error e s => rfl
  | ok outcome s => cases outcome <;> rfl

/-- What a request comes to that has been entered, if its wait is the next one. -/
def answer (d : Disturbed) (patience : Patience) (request : Request) : Except Failure Unit × Store :=
  if d.waits = d.calm then (.error (d.how.failureOf request), d.store.logged request)
  else (d.store.logged request).answer patience request

theorem run_perform (d : Disturbed) (request : Request) (patience : Patience) :
    (Service.perform request patience).run d =
      if d.store.unreachable then .error (.unreachable "backend is unreachable") d
      else if d.store.containers.contains request.container then
        match d.answer patience request with
        | (.ok _, s) => .ok () { d with store := s, waits := d.waits + 1 }
        | (.error e, s) => .error e { d with store := s, waits := d.waits + 1 }
      else .error (.noContainer request.container) d := by
  have hsubmit : (Service.submit request : Action Disturbed Operation) =
      onStore (Store.accept request) := rfl
  rw [Service.perform, EStateM.run_bind, hsubmit, run_onStore, Store.run_accept_eq]
  cases d.store.unreachable with
  | true => rfl
  | false =>
    cases d.store.containers.contains request.container with
    | false => rfl
    | true =>
      simp only [Bool.false_eq_true, if_false, if_true]
      rw [run_settle]
      dsimp only
      unfold answer
      by_cases hwaits : d.waits = d.calm
      · simp only [if_pos hwaits, settling, EStateM.run_bind, run_disturb_pendingWith]
        cases d.how <;> rfl
      · have hsettle : (settling ⟨d.store.lastId + 1, request.description⟩
            (Store.finish ⟨d.store.lastId + 1, request.description⟩ patience)).run
              (d.store.pendingWith request) = _ :=
          Store.run_settle_pendingWith patience request
        simp only [if_neg hwaits, hsettle]
        generalize (d.store.logged request).answer patience request = answer
        obtain ⟨result, s⟩ := answer
        cases result <;> rfl

end Disturbed

/-! ### Worlds with a disturbed store -/

namespace World

variable {d : World Disturbed} {ctx : Context} {request : Request}

/-- The world with the store itself. -/
def plain (d : World Disturbed) : World Store :=
  { service := d.service.store, tree := d.tree, drivers := d.drivers, journal := d.journal }

/-- The world in which the store lets `calm` waits pass and disturbs the next. -/
def disturbed (w : World Store) (calm : Nat) (how : Disturbance) : World Disturbed :=
  { service := { store := w.service, calm := calm, how := how }
    tree := w.tree, drivers := w.drivers, journal := w.journal }

/-- A disturbed world after one more wait, with another store. -/
def counted (d : World Disturbed) (w : World Store) : World Disturbed :=
  { service := { d.service with store := w.service, waits := d.service.waits + 1 }
    tree := w.tree, drivers := w.drivers, journal := w.journal }

@[simp] theorem plain_counted (d : World Disturbed) (w : World Store) :
    (d.counted w).plain = w := rfl

@[simp] theorem plain_disturbed (w : World Store) (calm : Nat) (how : Disturbance) :
    (w.disturbed calm how).plain = w := rfl

theorem run_submit (d : World Disturbed) (request : Request) :
    (onService (Service.submit request)).run d =
      match (Store.accept request).run d.service.store with
      | .ok op s => .ok op { d with service := { d.service with store := s } }
      | .error e s => .error e { d with service := { d.service with store := s } } := by
  have hsubmit : (Service.submit request : Action Disturbed Operation) =
      Disturbed.onStore (Store.accept request) := rfl
  rw [run_onService, hsubmit, Disturbed.run_onStore]
  cases (Store.accept request).run d.service.store <;> rfl

/-- A request that is refused is not waited for. -/
theorem run_perform_refused (ctx : Context)
    (h : d.plain.service.unreachable = true ∨
      d.plain.service.containers.contains request.container = false) :
    ∃ e, (perform ctx request).run d = .error e d ∧
      (perform ctx request).run d.plain = .error e d.plain := by
  obtain ⟨e, -, hrun⟩ := Store.run_accept_of_refused h
  have haccept : (Store.accept request).run d.service.store = .error e d.service.store := hrun
  refine ⟨e, ?_, ?_⟩
  · rw [perform, EStateM.run_bind, run_submit, haccept]
  · rw [perform, EStateM.run_bind, run_onService, Store.service_submit, hrun]

/-- A request that is accepted is waited for. -/
theorem run_perform_accepted (h : d.plain.service.unreachable = false)
    (hc : d.plain.service.containers.contains request.container = true) :
    (perform ctx request).run d =
      (onService (Service.settle ⟨d.service.store.lastId + 1, request.description⟩ ctx.patience)).run
        { d with
          service := { d.service with store := d.service.store.pendingWith request }
          journal := d.journal ++ [.asked request] } := by
  have haccept : (Store.accept request).run d.service.store = _ := Store.run_accept h hc
  rw [perform, EStateM.run_bind, run_submit, haccept]
  rfl

theorem run_perform_disturbed (ctx : Context) (hwaits : d.service.waits = d.service.calm)
    (h : d.plain.service.unreachable = false)
    (hc : d.plain.service.containers.contains request.container = true) :
    (perform ctx request).run d =
      .error (d.service.how.failureOf request) (d.counted (d.plain.asked request)) := by
  rw [run_perform_accepted h hc, run_onService]
  dsimp only
  rw [Disturbed.run_settle]
  dsimp only
  rw [if_pos hwaits, Disturbed.settling, EStateM.run_bind, Disturbed.run_disturb_pendingWith]
  obtain ⟨⟨store, calm, how, waits⟩, tree, drivers, journal⟩ := d
  cases how <;> rfl

theorem run_perform_calm (ctx : Context) (hwaits : d.service.waits ≠ d.service.calm)
    (h : d.plain.service.unreachable = false)
    (hc : d.plain.service.containers.contains request.container = true) :
    (perform ctx request).run d = match (perform ctx request).run d.plain with
      | .ok u w => .ok u (d.counted w)
      | .error e w => .error e (d.counted w) := by
  have hsettle : (Disturbed.settling ⟨d.service.store.lastId + 1, request.description⟩
      (Store.finish ⟨d.service.store.lastId + 1, request.description⟩ ctx.patience)).run
        (d.service.store.pendingWith request) = _ :=
    Store.run_settle_pendingWith ctx.patience request
  rw [run_perform_accepted h hc, run_onService, run_perform_of_accepted h hc]
  dsimp only
  rw [Disturbed.run_settle]
  dsimp only
  rw [if_neg hwaits, hsettle]
  obtain ⟨⟨store, calm, how, waits⟩, tree, drivers, journal⟩ := d
  dsimp only [plain]
  obtain ⟨result, s⟩ := (store.logged request).answer ctx.patience request
  cases result <;> rfl

end World

end BuildTargets
