/-
  BuildTargets/Fleet.lean
  =======================
  **Questions about containers, their removal, and readiness.**

  The simple commands: list the build targets, tell whether a container exists,
  where its root file system is and what state it is in, and destroy it, which
  stops it first unless it is stopped.  `ready` asks whether the container
  service can be used: the bridge has a subnet, the service answers, and no
  target needs fixing.
-/
import BuildTargets.Bridge
import BuildTargets.Repair
import BuildTargets.Report

namespace BuildTargets.Fleet

open BuildTargets

variable {β : Type} [Service β]

/-- The build targets, in the order of the service. -/
def list : Action β (List Target) := return (← Service.containers).filterMap (·.target?)

/-- Whether there is a container of this name, target or not. -/
def hasContainer (name : String) : Action β Bool :=
  return (← Service.containers).any (·.name = name)

def status (name : String) : Action β StatusReport := do
  let c ← Service.container name
  return ⟨c.status.text, c.ipv4⟩

/-- Stops a container, unless it is stopped, and deletes it. -/
def destroy (patience : Patience) (name : String) : Action β Unit := do
  let c ← Service.container name
  if c.status ≠ .stopped then Service.perform (.stop name true) patience
  Service.perform (.delete name) patience

/-- Checks the configuration of the bridge in a file. -/
def bridgeReady (file : String) : Action (World β) Unit := do
  MonadExcept.ofExcept (Bridge.checkFile (← get).tree file)

/-- Checks that the service can be used; without a file the bridge is not
    looked at. -/
def ready (repairs : List (Repair β)) (ctx : Context) (bridgeFile : Option String) :
    Action (World β) Unit := do
  if let some file := bridgeFile then bridgeReady file
  let _ ← World.onService Service.containers
  Repair.checkAll repairs ctx

end BuildTargets.Fleet
