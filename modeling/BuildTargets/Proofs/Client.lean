/-
  BuildTargets/Proofs/Client.lean
  ===============================
  **What the client is started for, and what comes of it.**

  There is one equation for each operation of the service behind its client.
  Nothing is assumed about the launcher: it answers each invocation as it likes,
  whatever it has answered before.
-/
import BuildTargets.Client
import BuildTargets.Proofs.Run
import BuildTargets.World

namespace BuildTargets

/-- No request is made by the listing. -/
theorem Request.arguments_ne_list (request : Request) : request.arguments ≠ listArguments := by
  cases request <;> simp [arguments, listArguments]

namespace Client

/-! ### The client as a service -/

theorem service_containers : (Service.containers : Action Client (List Container)) = listAll := rfl

theorem service_container (name : String) :
    (Service.container name : Action Client Container) = find name := rfl

theorem service_submit (request : Request) :
    (Service.submit request : Action Client Operation) = accept request := rfl

theorem service_await (op : Operation) (patience : Patience) :
    (Service.await op patience : Action Client Outcome) = finish op patience := rfl

/-! ### Invocations -/

/-- The client after one more invocation. -/
def invoked (c : Client) (arguments : List String) : Client :=
  { c with log := c.log ++ [arguments] }

/-- The client once it has been invoked some more times. -/
def later (c : Client) (invocations : List (List String)) : Client :=
  { c with log := c.log ++ invocations }

/-- The failure to start the client. -/
def notStarted (c : Client) (e : IoError) : Failure :=
  .unreachable ("could not run " ++ c.program ++ ": " ++ e.message)

theorem run_invoke (c : Client) (arguments : List String) :
    (invoke arguments).run c = match c.start arguments with
      | .ok run => .ok run (c.invoked arguments)
      | .error e => .error (c.notStarted e) c := by
  unfold invoke
  rw [EStateM.run_bind, EStateM.run_get]
  dsimp only
  cases c.start arguments with
  | ok run => rfl
  | error e => rfl

/-! ### Queries -/

/-- What a run of the listing says, if it says anything. -/
def listing (c : Client) (run : ClientRun) : Except Failure (List Container) :=
  if run.status.isSuccess then
    match Listing.read? (Text.decodeLossy run.stdout) with
    | some cs => .ok cs
    | none => .error (.unexpectedAnswer "could not parse container list")
  else .error (.unreachable (c.program ++ " " ++ " ".intercalate listArguments ++ " failed: " ++
    Text.trim (Text.decodeLossy run.stderr)))

theorem listing_eq_ok_iff {c : Client} {run : ClientRun} {cs : List Container} :
    c.listing run = .ok cs ↔
      run.status.isSuccess = true ∧ Listing.read? (Text.decodeLossy run.stdout) = some cs := by
  unfold listing
  cases run.status.isSuccess with
  | false => simp
  | true => cases Listing.read? (Text.decodeLossy run.stdout) <;> simp

theorem run_listAll (c : Client) :
    listAll.run c = match c.start listArguments with
      | .ok run => match c.listing run with
        | .ok cs => .ok cs (c.invoked listArguments)
        | .error e => .error e (c.invoked listArguments)
      | .error e => .error (c.notStarted e) c := by
  unfold listAll query
  rw [EStateM.run_bind, EStateM.run_bind, run_invoke]
  cases c.start listArguments with
  | error e => rfl
  | ok run =>
    unfold listing
    dsimp only
    cases run.status.isSuccess with
    | false => rfl
    | true =>
      simp only [if_true, EStateM.run_pure]
      cases Listing.read? (Text.decodeLossy run.stdout) <;> rfl

theorem run_find (c : Client) (name : String) :
    (find name).run c = match c.start listArguments with
      | .ok run => match c.listing run with
        | .ok cs => match cs.find? (·.name = name) with
          | some found => .ok found (c.invoked listArguments)
          | none => .error (.noContainer name) (c.invoked listArguments)
        | .error e => .error e (c.invoked listArguments)
      | .error e => .error (c.notStarted e) c := by
  unfold find
  rw [EStateM.run_bind, run_listAll]
  cases c.start listArguments with
  | error e => rfl
  | ok run =>
    dsimp only
    cases c.listing run with
    | error e => rfl
    | ok cs =>
      dsimp only
      cases cs.find? (·.name = name) <;> rfl

/-- What is found has been listed. -/
theorem listing_of_found {c : Client} {name : String} {found : Container}
    (h : resultOf ((find name).run c) = .ok found) :
    ∃ run cs, c.start listArguments = .ok run ∧ c.listing run = .ok cs ∧
      cs.find? (·.name = name) = some found := by
  rw [run_find] at h
  split at h
  · next run hstart =>
    split at h
    · next cs hlisting =>
      split at h
      · next found' hfind =>
        cases h
        exact ⟨run, cs, hstart, hlisting, hfind⟩
      · cases h
    · cases h
  · cases h

/-! ### Requests -/

/-- The client after a request whose process has been waited for. -/
def settled (c : Client) (request : Request) : Client :=
  { c with
    log := c.log ++ [request.arguments]
    pending := c.pending.erase (c.lastId + 1)
    lastId := c.lastId + 1 }

/-- What a request comes to whose process ends with some run. -/
def verdict (request : Request) (run : ClientRun) : Except Failure Unit :=
  match outcome run with
  | .success => .ok ()
  | .failure detail => .error (.operationFailed request.description detail)

theorem outcome_eq_success_iff (run : ClientRun) :
    outcome run = .success ↔ run.status.isSuccess = true := by
  unfold outcome
  split
  · next h => simp [h]
  · next h =>
    dsimp only
    split <;> simp [h]

variable (c : Client) (request : Request)

theorem run_accept :
    (accept request).run c = match c.start request.arguments with
      | .ok run => .ok ⟨c.lastId + 1, request.description⟩ { c.invoked request.arguments with
          pending := c.pending.insert (c.lastId + 1) run, lastId := c.lastId + 1 }
      | .error e => .error (c.notStarted e) c := by
  unfold accept
  rw [EStateM.run_bind, run_invoke]
  cases c.start request.arguments with
  | ok run => rfl
  | error e => rfl

/-- What waiting for a request comes to whose process ends with some run.  A process that
    outlasts the wait is not heard. -/
def waited (patience : Patience) (request : Request) (run : ClientRun) : Except Failure Unit :=
  if run.outlasts then
    if patience.cancelled then .error (.operationCancelled request.description)
    else match patience.limit with
      | some limit => .error (.operationTimedOut request.description limit)
      | none => verdict request run
  else verdict request run

theorem run_settle_eq (patience : Patience) (run : ClientRun) :
    (Service.settle ⟨c.lastId + 1, request.description⟩ patience).run
        { c.invoked request.arguments with
          pending := c.pending.insert (c.lastId + 1) run, lastId := c.lastId + 1 } =
      match waited patience request run with
      | .ok _ => .ok () (c.settled request)
      | .error e => .error e (c.settled request) := by
  unfold Service.settle waited verdict
  rw [EStateM.run_bind, service_await]
  unfold finish
  rw [EStateM.run_bind, EStateM.run_get]
  dsimp only
  rw [Dict.get?_insert_self]
  dsimp only
  rw [EStateM.run_bind, EStateM.run_set, Dict.erase_insert]
  dsimp only
  cases run.outlasts with
  | false => cases outcome run <;> rfl
  | true =>
    cases patience.cancelled with
    | true => rfl
    | false =>
      cases patience.limit with
      | some limit => rfl
      | none => cases outcome run <;> rfl

/-- A wait that is not cancelled, and that is not limited if the process outlasts every
    limit, ends with the process. -/
theorem waited_in_time {patience : Patience} {run : ClientRun}
    (hcancelled : patience.cancelled = false)
    (hlimit : run.outlasts = true → patience.limit = none) :
    waited patience request run = verdict request run := by
  unfold waited
  by_cases houtlasts : run.outlasts = true
  · simp [hcancelled, hlimit houtlasts]
  · simp [houtlasts]

/-- A wait that is neither limited nor cancelled ends with the process. -/
theorem run_settle (run : ClientRun) :
    (Service.settle ⟨c.lastId + 1, request.description⟩ {}).run { c.invoked request.arguments with
        pending := c.pending.insert (c.lastId + 1) run, lastId := c.lastId + 1 } =
      match verdict request run with
      | .ok _ => .ok () (c.settled request)
      | .error e => .error e (c.settled request) := by
  rw [run_settle_eq, waited_in_time request rfl fun _ => rfl]

/-- A request that is made and waited for. -/
theorem run_perform_eq (patience : Patience) :
    (Service.perform request patience).run c = match c.start request.arguments with
      | .ok run => match waited patience request run with
        | .ok _ => .ok () (c.settled request)
        | .error e => .error e (c.settled request)
      | .error e => .error (c.notStarted e) c := by
  unfold Service.perform
  rw [EStateM.run_bind, service_submit, run_accept]
  cases c.start request.arguments with
  | error e => rfl
  | ok run => exact run_settle_eq c request patience run

theorem run_perform :
    (Service.perform request {}).run c = match c.start request.arguments with
      | .ok run => match verdict request run with
        | .ok _ => .ok () (c.settled request)
        | .error e => .error e (c.settled request)
      | .error e => .error (c.notStarted e) c := by
  rw [run_perform_eq]
  cases c.start request.arguments with
  | error e => rfl
  | ok run =>
    dsimp only
    rw [waited_in_time request rfl fun _ => rfl]

end Client

end BuildTargets
