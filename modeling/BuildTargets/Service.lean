/-
  BuildTargets/Service.lean
  =========================
  **The container service, as the library uses it.**

  A service lists containers and takes four kinds of requests.  A request that
  it accepts becomes an *operation*, which has to be waited for and ends in
  success or in failure.  `Service` holds these basic actions; the helpers of
  the second half make a request and wait for it at once.
-/
import BuildTargets.Container
import BuildTargets.Failure

namespace BuildTargets

/-- A change that is asked of the container service. -/
inductive Request where
  | addDevice (container name : String) (device : Device)
  | removeDevice (container name : String)
  | stop (container : String) (force : Bool)
  | delete (container : String)
deriving DecidableEq, Inhabited

namespace Request

def container : Request → String
  | addDevice container _ _ => container
  | removeDevice container _ => container
  | stop container _ => container
  | delete container => container

def description : Request → String
  | addDevice container name _ => "add device " ++ name ++ " to " ++ container
  | removeDevice container name => "remove device " ++ name ++ " from " ++ container
  | stop container _ => "stop " ++ container
  | delete container => "delete " ++ container

end Request

/-- A request that the service has accepted and not yet answered. -/
structure Operation where
  id : Nat
  description : String
deriving DecidableEq, Repr, Inhabited

def Operation.text (op : Operation) : String := "#" ++ toString op.id ++ " " ++ op.description

/-- How an operation ended. -/
inductive Outcome where
  | success
  | failure (detail : String)
deriving DecidableEq, Repr, Inhabited

/-- How long to wait for an operation, and whether the wait has been given
    up. -/
structure Patience where
  /-- The longest wait; without it the wait has no end. -/
  limit : Option Duration := none
  cancelled : Bool := false
deriving DecidableEq, Repr, Inhabited

/-- A state that answers for the container service. -/
class Service (β : Type) where
  containers : Action β (List Container)
  container (name : String) : Action β Container
  submit (request : Request) : Action β Operation
  await (op : Operation) (patience : Patience) : Action β Outcome

namespace Service

variable {β : Type} [Service β]

/-- Waits for an operation to succeed; one that fails is a failure. -/
def settle (op : Operation) (patience : Patience) : Action β Unit := do
  match ← await op patience with
  | .success => return
  | .failure detail => throw (.operationFailed op.description detail)

def perform (request : Request) (patience : Patience) : Action β Unit := do
  settle (← submit request) patience

/-- The containers that are build targets, in the order of the service. -/
def targets : Action β (List Container) :=
  return (← containers).filter (·.isTarget)

end Service

end BuildTargets
