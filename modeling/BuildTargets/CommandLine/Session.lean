/-
  BuildTargets/CommandLine/Session.lean
  =====================================
  **Carrying out a command line.**

  A command runs on the client, with the host as it is found.  What it reports
  is printed; a failure is explained on the error output and decides the exit
  status, and nothing is printed then.
-/
import BuildTargets.Client
import BuildTargets.CommandLine.Parse
import BuildTargets.Fleet
import BuildTargets.Repair.Standard

namespace BuildTargets.CommandLine

open BuildTargets

/-- What remains of a command that has been carried out. -/
structure Transcript where
  exitStatus : Nat
  stdout : String
  stderr : String
  calls : List (List String)
  tree : Tree

/-- Who remembers the graphics driver during a command. -/
def seeker : String := "command"

def context (i : Invocation) (privileged : Bool) : Context where
  host := i.host
  patience := i.patience
  privileged := privileged

variable {β : Type} [Service β]

def perform (i : Invocation) (ctx : Context) : Action (World β) (Option Report) :=
  let repairs := Repair.standard seeker
  match i.command with
  | .list => return some (.targets (← World.onService Fleet.list))
  | .exist name => do
    if !(← World.onService (Fleet.hasContainer name)) then throw (.noContainer name)
    return none
  | .rootfs name => return some (.rootfs (ctx.host.rootfsOf name))
  | .status name => return some (.status (← World.onService (Fleet.status name)))
  | .destroy name => do
    World.onService (Fleet.destroy ctx.patience name)
    return some (.message ("Container " ++ name ++ " destroyed"))
  | .initialized ignoreBridge => do
    Fleet.ready repairs ctx (if ignoreBridge then none else some i.bridgeFile)
    return none
  | .autofix | .fix none => do
    Repair.fixAll repairs ctx
    return some (.message "All build targets are fixed")
  | .fix (some name) => do
    Repair.fixOne repairs ctx name
    return some (.message ("Container " ++ name ++ " is fixed"))
  | .check none => do
    Repair.checkAll repairs ctx
    return none
  | .check (some name) => do
    Repair.checkOne repairs ctx name
    return none

def render (i : Invocation) (r : Report) : String := if i.json then r.json else r.text

/-- Carries out a command line that has been understood. -/
def execute (i : Invocation) (launch : Launcher) (tree : Tree) (privileged : Bool) : Transcript :=
  let world : World Client := { service := { program := i.client, launch := launch }, tree := tree }
  match perform i (context i privileged) world with
  | .ok report w =>
    { exitStatus := 0
      stdout := match report with
        | some r => render i r ++ "\n"
        | none => ""
      stderr := ""
      calls := w.service.log
      tree := w.tree }
  | .error f w =>
    { exitStatus := f.exitStatus
      stdout := ""
      stderr := "Error: " ++ f.message ++ "\n"
      calls := w.service.log
      tree := w.tree }

/-- What is printed for a refused command line: the version, where that was asked
    for. -/
def refusalOutput : Refusal → String
  | .version => "usdk-target 0.4.0\n"
  | _ => ""

/-- Understands a command line and carries it out.  A refused one does nothing
    else. -/
def run (env : Environment) (args : List String) (launch : Launcher) (tree : Tree)
    (privileged : Bool) : Transcript :=
  match parse env args with
  | .ok i => execute i launch tree privileged
  | .error refusal =>
    { exitStatus := refusal.exitStatus
      stdout := refusalOutput refusal
      stderr := ""
      calls := []
      tree := tree }

end BuildTargets.CommandLine
