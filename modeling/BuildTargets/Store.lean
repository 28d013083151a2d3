/-
  BuildTargets/Store.lean
  =======================
  **A container service that holds its containers in memory.**

  Requests are recorded when they are accepted and applied when their operation
  is waited for, the way a daemon applies them later.  The store can be told to
  be unreachable, or to let every operation fail.
-/
import BuildTargets.Service

namespace BuildTargets

/-- The state of a service held in memory. -/
structure Store where
  containers : Dict String Container := .empty
  /-- The requests that have been accepted, oldest first. -/
  requests : List Request := []
  /-- The accepted requests that have not been waited for, by the number of
      their operation. -/
  pending : Dict Nat Request := .empty
  lastId : Nat := 0
  /-- Every query and request is refused. -/
  unreachable : Bool := false
  /-- What every operation fails with, if it is to fail. -/
  failing : Option String := none
deriving DecidableEq, Inhabited

namespace Store

/-- Puts a container into the store, in the place of one of the same name. -/
def insert (s : Store) (c : Container) : Store :=
  { s with containers := s.containers.insert c.name c }

/-- A store with some containers; of one name the last counts. -/
def ofContainers (cs : List Container) : Store := cs.foldl insert {}

/-- Replaces the container of a name, if there is one. -/
def modify (s : Store) (name : String) (f : Container → Container) : Store :=
  match s.containers.get? name with
  | some c => { s with containers := s.containers.insert name (f c) }
  | none => s

def apply (s : Store) (request : Request) : Outcome × Store :=
  match s.containers.get? request.container with
  | none => match request with
    | .removeDevice _ name => (.failure ("device " ++ name ++ " does not exist"), s)
    | _ => (.failure ("container " ++ request.container ++ " not found"), s)
  | some c => match request with
    | .addDevice container name device =>
      if c.hasDevice name then (.failure ("device " ++ name ++ " already exists"), s)
      else (.success, s.modify container fun c => { c with devices := c.devices.insert name device })
    | .removeDevice container name =>
      if c.hasDevice name then
        (.success, s.modify container fun c => { c with devices := c.devices.erase name })
      else (.failure ("device " ++ name ++ " does not exist"), s)
    | .stop container _ =>
      (.success, s.modify container fun c => { c with status := .stopped, ipv4 := none })
    | .delete container => (.success, { s with containers := s.containers.erase container })

def requireReachable : Action Store Unit := do
  if (← get).unreachable then throw (.unreachable "backend is unreachable")

def listAll : Action Store (List Container) := do
  requireReachable
  return (← get).containers.values

def find (name : String) : Action Store Container := do
  requireReachable
  match (← get).containers.get? name with
  | some c => return c
  | none => throw (.noContainer name)

/-- Accepts a request for a container that is there. -/
def accept (request : Request) : Action Store Operation := do
  requireReachable
  let s ← get
  if s.containers.contains request.container then
    let id := s.lastId + 1
    set { s with
      requests := s.requests ++ [request]
      pending := s.pending.insert id request
      lastId := id }
    return ⟨id, request.description⟩
  else throw (.noContainer request.container)

/-- Ends an operation.  Whatever comes of it, it is pending no more. -/
def finish (op : Operation) (patience : Patience) : Action Store Outcome := do
  let s ← get
  match s.pending.get? op.id with
  | none => throw (.unexpectedAnswer ("unknown operation " ++ op.text))
  | some request =>
    let s := { s with pending := s.pending.erase op.id }
    set s
    if patience.cancelled then throw (.operationCancelled op.description)
    match s.failing with
    | some detail => return .failure detail
    | none =>
      let (outcome, s) := s.apply request
      set s
      return outcome

instance : Service Store where
  containers := listAll
  container := find
  submit := accept
  await := finish

end Store

end BuildTargets
