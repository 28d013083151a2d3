/-
  BuildTargets/World.lean
  =======================
  **Everything that a run can see and change.**

  A world is a container service, the file tree of the host, what is remembered
  of the loaded driver, and a journal of what has been done.  Actions on one
  part are lifted to the world; each leaves the other parts as they are.

  A run changes the world through `World.perform` and `World.change` only: a
  request that the service has accepted, and a change that the host has let
  happen, are each entered in the journal when they are.
-/
import BuildTargets.HostView
import BuildTargets.Service

namespace BuildTargets

/-- What is known of the loaded graphics driver. -/
structure Driver where
  /-- The leading number of its version. -/
  version : String
  libraries : String
deriving DecidableEq, Repr, Inhabited

/-- Something that a run has done. -/
inductive Deed where
  /-- A request that the container service has accepted. -/
  | asked (request : Request)
  | changed (change : HostChange)
deriving DecidableEq, Inhabited

/-- The state of a run. -/
structure World (β : Type) where
  service : β
  tree : Tree
  /-- The drivers found so far, by who looked for them. -/
  drivers : Dict String Driver := .empty
  /-- What has been done, oldest first. -/
  journal : List Deed := []
deriving Inhabited

/-- The settings of a run. -/
structure Context where
  host : HostView := {}
  patience : Patience := {}
  /-- The process may change the host. -/
  privileged : Bool := true
deriving DecidableEq, Repr, Inhabited

namespace World

variable {β α : Type}

def onService (action : Action β α) : Action (World β) α := fun w =>
  match action w.service with
  | .ok a s => .ok a { w with service := s }
  | .error e s => .error e { w with service := s }

/-- A look at the file tree.  `explain` makes a failure of what the system
    says. -/
def look (request : Tree → Except IoError α) (explain : IoError → Failure := .io) :
    Action (World β) α := do
  match request (← get).tree with
  | .ok a => return a
  | .error e => throw (explain e)

def enter (deed : Deed) : Action (World β) Unit :=
  modify fun w => { w with journal := w.journal ++ [deed] }

def change (c : HostChange) (explain : IoError → Failure := .io) : Action (World β) Unit := do
  let w ← get
  match c.apply w.tree with
  | .ok t =>
    set { w with tree := t }
    enter (.changed c)
  | .error e => throw (explain e)

/-- Makes a request of the service and waits for it to succeed. -/
def perform [Service β] (ctx : Context) (request : Request) : Action (World β) Unit := do
  let op ← onService (Service.submit request)
  enter (.asked request)
  onService (Service.settle op ctx.patience)

end World

end BuildTargets
