/-
  BuildTargets/Client.lean
  ========================
  **The container service behind its command line client.**

  Queries run the client to its end and read what it prints.  Requests start
  the client and leave it running; the operation ends with the process, and its
  exit status is the outcome.

  What running the client does is a parameter, the `Launcher`: it is given the
  program, all earlier invocations and the new arguments, and says what the
  process prints and how it ends, or why it could not be started.
-/
import BuildTargets.Listing
import BuildTargets.Service
import BuildTargets.Text.Utf8

namespace BuildTargets

/-! ### Processes -/

/-- How a process ended. -/
inductive ExitStatus where
  | code (n : Nat)
  | signal (n : Nat)
deriving DecidableEq, Repr, Inhabited

namespace ExitStatus

def isSuccess : ExitStatus → Bool
  | code n => n = 0
  | signal _ => false

def signalName? : Nat → Option String
  | 1 => some "SIGHUP"
  | 2 => some "SIGINT"
  | 3 => some "SIGQUIT"
  | 4 => some "SIGILL"
  | 5 => some "SIGTRAP"
  | 6 => some "SIGABRT"
  | 7 => some "SIGBUS"
  | 8 => some "SIGFPE"
  | 9 => some "SIGKILL"
  | 10 => some "SIGUSR1"
  | 11 => some "SIGSEGV"
  | 12 => some "SIGUSR2"
  | 13 => some "SIGPIPE"
  | 14 => some "SIGALRM"
  | 15 => some "SIGTERM"
  | 16 => some "SIGSTKFLT"
  | 17 => some "SIGCHLD"
  | 18 => some "SIGCONT"
  | 19 => some "SIGSTOP"
  | 20 => some "SIGTSTP"
  | 21 => some "SIGTTIN"
  | 22 => some "SIGTTOU"
  | 23 => some "SIGURG"
  | 24 => some "SIGXCPU"
  | 25 => some "SIGXFSZ"
  | 26 => some "SIGVTALRM"
  | 27 => some "SIGPROF"
  | 28 => some "SIGWINCH"
  | 29 => some "SIGIO"
  | 30 => some "SIGPWR"
  | 31 => some "SIGSYS"
  | _ => none

def text : ExitStatus → String
  | code n => "exit status: " ++ toString n
  | signal n =>
    match signalName? n with
    | some name => "signal: " ++ toString n ++ " (" ++ name ++ ")"
    | none => "signal: " ++ toString n

end ExitStatus

/-- What one run of the client does. -/
structure ClientRun where
  stdout : List UInt8 := []
  stderr : List UInt8 := []
  status : ExitStatus := .code 0
  /-- The process outlasts every limited or cancelled wait. -/
  outlasts : Bool := false
deriving DecidableEq, Repr, Inhabited

/-- What comes of starting a program after some earlier invocations. -/
abbrev Launcher :=
  (program : String) → (earlier : List (List String)) → (arguments : List String) →
    Except IoError ClientRun

def Request.arguments : Request → List String
  | .addDevice container name device =>
    ["config", "device", "add", container, name, device.kind.name] ++ device.arguments
  | .removeDevice container name => ["config", "device", "remove", container, name]
  | .stop container force => ["stop", container] ++ (if force then ["--force"] else [])
  | .delete container => ["delete", container]

def listArguments : List String := ["list", "--format", "json"]

/-! ### The service -/

/-- The state of a service behind its client. -/
structure Client where
  program : String
  launch : Launcher
  /-- The arguments of the invocations so far, oldest first. -/
  log : List (List String) := []
  /-- The processes that have not been waited for, by the number of their
      operation. -/
  pending : Dict Nat ClientRun := .empty
  lastId : Nat := 0

namespace Client

def start (c : Client) (arguments : List String) : Except IoError ClientRun :=
  if (c.program :: arguments).any (·.toList.contains '\x00') then .error .nulInArgument
  else c.launch c.program c.log arguments

def invoke (arguments : List String) : Action Client ClientRun := do
  let c ← get
  match c.start arguments with
  | .error e => throw (.unreachable ("could not run " ++ c.program ++ ": " ++ e.message))
  | .ok run =>
    set { c with log := c.log ++ [arguments] }
    return run

/-- What the client prints when it is run to a successful end. -/
def query (arguments : List String) : Action Client String := do
  let run ← invoke arguments
  if run.status.isSuccess then return Text.decodeLossy run.stdout
  else throw (.unreachable ((← get).program ++ " " ++ " ".intercalate arguments ++ " failed: " ++
    Text.trim (Text.decodeLossy run.stderr)))

/-- All containers of the service.  What a reader has to say about a listing that
    it cannot take is left out of the failure. -/
def listAll : Action Client (List Container) := do
  match Listing.read? (← query listArguments) with
  | some cs => return cs
  | none => throw (.unexpectedAnswer "could not parse container list")

/-- The first container of a name that the client lists. -/
def find (name : String) : Action Client Container := do
  match (← listAll).find? (·.name = name) with
  | some c => return c
  | none => throw (.noContainer name)

def accept (request : Request) : Action Client Operation := do
  let run ← invoke request.arguments
  let c ← get
  let id := c.lastId + 1
  set { c with pending := c.pending.insert id run, lastId := id }
  return ⟨id, request.description⟩

/-- How an operation ends whose process has ended.  A failed client explains
    itself on its error output; if it does not, its exit status has to do. -/
def outcome (run : ClientRun) : Outcome :=
  if run.status.isSuccess then .success
  else
    let said := (Text.decode? run.stderr).getD ""
    if Text.isBlankText said then .failure ("lxc exited with " ++ run.status.text)
    else .failure (Text.trim said)

/-- Waits for the process of an operation.  Whatever comes of it, the operation
    is pending no more. -/
def finish (op : Operation) (patience : Patience) : Action Client Outcome := do
  let c ← get
  match c.pending.get? op.id with
  | none => throw (.unexpectedAnswer ("unknown operation " ++ op.text))
  | some run =>
    set { c with pending := c.pending.erase op.id }
    if run.outlasts then
      if patience.cancelled then throw (.operationCancelled op.description)
      if let some limit := patience.limit then throw (.operationTimedOut op.description limit)
    return outcome run

instance : Service Client where
  containers := listAll
  container := find
  submit := accept
  await := finish

end Client

end BuildTargets
