/-
  BuildTargets/CommandLine.lean
  =============================
  **The words of the command line.**

  A command line is one command with its operand, and options that may stand
  before or after the command.  Some options can also be set by the
  environment.  `Invocation` is a command line that has been understood,
  `Refusal` the reason why one has not.
-/
import BuildTargets.Bridge
import BuildTargets.HostView
import BuildTargets.Service

namespace BuildTargets

/-- The commands by their words. -/
inductive Verb where
  | list
  | exist
  | rootfs
  | status
  | destroy
  | initialized
  | autofix
  | check
  | fix
deriving DecidableEq, Repr, Inhabited

namespace Verb

def word : Verb → String
  | list => "list"
  | exist => "exists"
  | rootfs => "rootfs"
  | status => "status"
  | destroy => "destroy"
  | initialized => "initialized"
  | autofix => "autofix"
  | check => "check"
  | fix => "fix"

def all : List Verb :=
  [list, exist, rootfs, status, destroy, initialized, autofix, check, fix]

def ofWord? (s : String) : Option Verb := all.find? (·.word = s)

/-- Whether a command can be given the name of a container. -/
def takesName : Verb → Bool
  | exist | rootfs | status | destroy | check | fix => true
  | list | initialized | autofix => false

end Verb

/-- The options that take a value. -/
inductive Setting where
  | client
  | dataDir
  | hostRoot
  | timeout
  | bridgeFile
deriving DecidableEq, Repr, Inhabited

def Setting.ofName? (name : String) : Option Setting :=
  if name = "lxc" then some .client
  else if name = "lxd-dir" then some .dataDir
  else if name = "host-root" then some .hostRoot
  else if name = "timeout" then some .timeout
  else if name = "bridge-file" then some .bridgeFile
  else none

/-- The options without a value. -/
inductive Flag where
  | json
  | verbose
  | help
  | version
  | ignoreBridge
deriving DecidableEq, Repr, Inhabited

/-- Where on the command line an option stands. -/
inductive Scope where
  | beforeCommand
  | afterCommand (verb : Verb)
deriving DecidableEq, Repr, Inhabited

/-- Whether a flag is known at some place.  Only the program as a whole has a
    version, and only `initialized` looks at the bridge. -/
def Flag.isKnown (scope : Scope) : Flag → Bool
  | json | verbose | help => true
  | version => scope = .beforeCommand
  | ignoreBridge => scope = .afterCommand .initialized

def Flag.ofName? (scope : Scope) (name : String) : Option Flag :=
  let flag? : Option Flag :=
    if name = "json" then some .json
    else if name = "verbose" then some .verbose
    else if name = "help" then some .help
    else if name = "version" then some .version
    else if name = "ignore-bridge" then some .ignoreBridge
    else none
  flag?.filter (·.isKnown scope)

def Flag.ofLetter? (scope : Scope) (letter : Char) : Option Flag :=
  let flag? : Option Flag :=
    if letter = 'v' then some .verbose
    else if letter = 'h' then some .help
    else if letter = 'V' then some .version
    else if letter = 'b' then some .ignoreBridge
    else none
  flag?.filter (·.isKnown scope)

/-- Why a command line is not carried out. -/
inductive Refusal where
  | help
  | version
  /-- Nothing at all was given, which shows help too. -/
  | nothingGiven
  | noCommand
  | noName
  | unknownArgument
  | unknownCommand
  | noValue
  | badNumber
  | repeated
  | needlessValue
deriving DecidableEq, Repr, Inhabited

/-- The exit status of a refused command line; asking for help or the version
    is no mistake. -/
def Refusal.exitStatus : Refusal → Nat
  | help | version => 0
  | _ => 2

/-- The variables of the environment that matter. -/
structure Environment where
  client : Option String := none
  dataDir : Option String := none
  hostRoot : Option String := none
  timeout : Option String := none
  /-- Set and not empty in a confined process. -/
  snap : Option String := none
deriving DecidableEq, Repr, Inhabited

/-- Whether the environment is that of a confined process. -/
def Environment.isConfined (env : Environment) : Bool :=
  match env.snap with
  | some s => s ≠ ""
  | none => false

/-- A command with its operand. -/
inductive Command where
  | list
  | exist (name : String)
  | rootfs (name : String)
  | status (name : String)
  | destroy (name : String)
  | initialized (ignoreBridge : Bool)
  | autofix
  | check (name : Option String)
  | fix (name : Option String)
deriving DecidableEq, Repr, Inhabited

/-- A command line that has been understood. -/
structure Invocation where
  command : Command
  client : String := "lxc"
  dataDir : String := ({} : HostView).dataDir
  hostRoot : String := ({} : HostView).root
  bridgeFile : String := Bridge.defaultFile
  /-- The longest wait for an operation, in seconds. -/
  timeout : Option Nat := none
  json : Bool := false
  verbose : Nat := 0
  confined : Bool := false
deriving DecidableEq, Repr, Inhabited

namespace Invocation

def host (i : Invocation) : HostView := ⟨i.hostRoot, i.dataDir, i.confined⟩

def patience (i : Invocation) : Patience := { limit := i.timeout.map .ofSeconds }

end Invocation

end BuildTargets
