/-
  BuildTargets/CommandLine/Parse.lean
  ===================================
  **Understanding a command line.**

  Arguments are read from left to right, first those before the command, then
  those after it.  An option may have its value in the same argument, after
  `=`, or in the next one; a value of the second kind is only looked at when
  the next thing with a meaning has been found, or at the end.  After `--`
  everything is an operand.

  What is given after the command comes before what is given in front of it,
  then the environment, then the default.
-/
import BuildTargets.CommandLine

namespace BuildTargets.CommandLine

open BuildTargets

/-! ### Values -/

/-- A path given as a value; it must not be empty. -/
def pathValue (s : String) : Except Refusal String :=
  if s = "" then .error .noValue else .ok s

def digitsValue (cs : List Char) : Nat := cs.foldl (fun n c => n * 10 + (c.toNat - 48)) 0

/-- A number of seconds given as a value: decimal digits, a plus sign before
    them or not, below 2⁶⁴. -/
def secondsValue (s : String) : Except Refusal Nat :=
  let digits := match s.toList with
    | '+' :: digits => digits
    | digits => digits
  if digits ≠ [] && digits.all (·.isDigit) && digitsValue digits < Nat.pow 2 64 then
    .ok (digitsValue digits)
  else .error .badNumber

/-- What has been given at one place, before or after the command. -/
structure Given where
  client : Option String := none
  dataDir : Option String := none
  hostRoot : Option String := none
  timeout : Option Nat := none
  bridgeFile : Option String := none
  json : Bool := false
  verbose : Nat := 0
  ignoreBridge : Bool := false
  name : Option String := none
deriving DecidableEq, Repr, Inhabited

namespace Given

/-- Sets a value that must not have been set. -/
def once {α : Type} (before : Option α) (value : Except Refusal α) : Except Refusal (Option α) :=
  match before with
  | some _ => .error .repeated
  | none => value.map some

def set (g : Given) (setting : Setting) (value : String) : Except Refusal Given :=
  match setting with
  | .client => (once g.client (pathValue value)).map fun v => { g with client := v }
  | .dataDir => (once g.dataDir (pathValue value)).map fun v => { g with dataDir := v }
  | .hostRoot => (once g.hostRoot (pathValue value)).map fun v => { g with hostRoot := v }
  | .timeout => (once g.timeout (secondsValue value)).map fun v => { g with timeout := v }
  | .bridgeFile => (once g.bridgeFile (pathValue value)).map fun v => { g with bridgeFile := v }

/-- The most that a count goes up to. -/
def countLimit : Nat := 255

/-- Raises a flag.  Only `verbose` may be raised again; help and version end
    everything. -/
def raise (g : Given) : Flag → Except Refusal Given
  | .json => if g.json then .error .repeated else .ok { g with json := true }
  | .verbose => .ok { g with verbose := min countLimit (g.verbose + 1) }
  | .help => .error .help
  | .version => .error .version
  | .ignoreBridge =>
    if g.ignoreBridge then .error .repeated else .ok { g with ignoreBridge := true }

end Given

/-! ### Arguments -/

/-- What has been read at one place. -/
structure Level where
  given : Given := {}
  /-- An option whose value is to come, or has come and has not been looked
      at. -/
  pending : Option (Setting × Option String) := none
deriving DecidableEq, Repr, Inhabited

namespace Level

/-- Whether the next operand is the value of an option. -/
def isAwaiting (l : Level) : Bool :=
  match l.pending with
  | some (_, none) => true
  | _ => false

/-- Looks at the value of the pending option. -/
def settle (l : Level) : Except Refusal Given :=
  match l.pending with
  | none => .ok l.given
  | some (_, none) => .error .noValue
  | some (setting, some value) => l.given.set setting value

def flag (l : Level) (f : Flag) : Except Refusal Level := do
  return { given := ← (← l.settle).raise f }

/-- Reads an argument that starts with two hyphens, given without them. -/
def long (scope : Scope) (l : Level) (body : List Char) : Except Refusal Level :=
  let name := String.ofList (body.takeWhile (· ≠ '='))
  let value := (body.dropWhile (· ≠ '=')).tail?.map String.ofList
  match Setting.ofName? name, Flag.ofName? scope name, value with
  | some setting, _, some value => do return { given := ← (← l.settle).set setting value }
  | some setting, _, none => do return { given := ← l.settle, pending := some (setting, none) }
  | none, some f, none => l.flag f
  | none, some _, some _ => .error .needlessValue
  | none, none, _ => .error .unknownArgument

/-- Reads the letters of an argument that starts with one hyphen. -/
def short (scope : Scope) (l : Level) : List Char → Except Refusal Level
  | [] => .ok l
  | letter :: letters =>
    match Flag.ofLetter? scope letter with
    | some f => do short scope (← l.flag f) letters
    | none => .error .unknownArgument

/-- Reads the value of the option that awaits one. -/
def value (l : Level) (s : String) : Level :=
  { l with pending := l.pending.map fun p => (p.1, some s) }

def operand (verb : Verb) (l : Level) (s : String) : Except Refusal Level := do
  if verb.takesName && l.given.name.isNone then
    return { given := { ← l.settle with name := some s } }
  else throw .unknownArgument

end Level

/-- The shapes of an argument. -/
inductive Shape where
  /-- Two hyphens alone: only operands follow. -/
  | escape
  /-- Two hyphens and something. -/
  | long (body : List Char)
  /-- One hyphen and something. -/
  | short (letters : List Char)
  /-- Anything else. -/
  | plain
deriving DecidableEq, Repr

def shape (s : String) : Shape :=
  match s.toList with
  | ['-', '-'] => .escape
  | '-' :: '-' :: body => .long body
  | ['-'] => .plain
  | '-' :: letters => .short letters
  | _ => .plain

def helpWord : String := "help"

/-- Whether a word stands for a command, or asks for help on one. -/
def isCommandWord (s : String) : Bool := s = helpWord || (Verb.ofWord? s).isSome

/-- The refusal after the word `help`: commands can be named, but they have no
    commands of their own. -/
def helpOn : List String → Refusal
  | [] => .help
  | [word] => if isCommandWord word then .help else .unknownCommand
  | _ => .unknownCommand

/-- Reads what stands before the command, up to the command with its
    arguments. -/
def readBefore (l : Level) : List String → Except Refusal (Level × Option (Verb × List String))
  | [] => .ok (l, none)
  | arg :: rest =>
    if !l.isAwaiting && arg = helpWord then .error (helpOn rest)
    else match if l.isAwaiting then none else Verb.ofWord? arg with
    | some verb => .ok (l, some (verb, rest))
    | none =>
      match shape arg with
      | .escape =>
        match rest with
        | [] => .ok (l, none)
        | word :: _ => .error (if isCommandWord word then .unknownArgument else .unknownCommand)
      | .long body => do readBefore (← l.long .beforeCommand body) rest
      | .short letters => do readBefore (← l.short .beforeCommand letters) rest
      | .plain => if l.isAwaiting then readBefore (l.value arg) rest else .error .unknownCommand

def readOperands (verb : Verb) (l : Level) : List String → Except Refusal Level
  | [] => .ok l
  | arg :: rest => do readOperands verb (← l.operand verb arg) rest

def readAfter (verb : Verb) (l : Level) : List String → Except Refusal Level
  | [] => .ok l
  | arg :: rest =>
    match shape arg with
    | .escape => readOperands verb l rest
    | .long body => do readAfter verb (← l.long (.afterCommand verb) body) rest
    | .short letters => do readAfter verb (← l.short (.afterCommand verb) letters) rest
    | .plain =>
      if l.isAwaiting then readAfter verb (l.value arg) rest
      else do readAfter verb (← l.operand verb arg) rest

/-! ### The environment -/

/-- A value that was given, or else the one that the environment sets. -/
def fromVariable {α : Type} (given : Option α) (fallback : Option String)
    (value : String → Except Refusal α) : Except Refusal (Option α) :=
  match given, fallback with
  | some v, _ => .ok (some v)
  | none, some s => (value s).map some
  | none, none => .ok none

/-- Fills in what the environment sets and has not been given. -/
def Given.withEnvironment (env : Environment) (g : Given) : Except Refusal Given := do
  let client ← fromVariable g.client env.client pathValue
  let dataDir ← fromVariable g.dataDir env.dataDir pathValue
  let hostRoot ← fromVariable g.hostRoot env.hostRoot pathValue
  let timeout ← fromVariable g.timeout env.timeout secondsValue
  return { g with client, dataDir, hostRoot, timeout }

/-! ### The whole -/

/-- The command of a word with what has been given after it. -/
def command (verb : Verb) (g : Given) : Except Refusal Command :=
  match verb, g.name with
  | .list, _ => .ok .list
  | .exist, some name => .ok (.exist name)
  | .rootfs, some name => .ok (.rootfs name)
  | .status, some name => .ok (.status name)
  | .destroy, some name => .ok (.destroy name)
  | .initialized, _ => .ok (.initialized g.ignoreBridge)
  | .autofix, _ => .ok .autofix
  | .check, name => .ok (.check name)
  | .fix, name => .ok (.fix name)
  | .exist, none | .rootfs, none | .status, none | .destroy, none => .error .noName

/-- The refusal of a command line without a command. -/
def withoutCommand (env : Environment) (g : Given) : Except Refusal Refusal := do
  return if (← g.withEnvironment env) = {} then .nothingGiven else .noCommand

/-- Puts together what was given before and after the command.  Where both
    have something, the place after the command wins over the one before it, and
    both over the environment. -/
def invocation (env : Environment) (cmd : Command) (before after : Given) :
    Except Refusal Invocation := do
  let base : Invocation := { command := cmd }
  let set ← Given.withEnvironment env
    { client := after.client <|> before.client
      dataDir := after.dataDir <|> before.dataDir
      hostRoot := after.hostRoot <|> before.hostRoot
      timeout := after.timeout <|> before.timeout }
  return {
    command := cmd
    client := set.client.getD base.client
    dataDir := set.dataDir.getD base.dataDir
    hostRoot := set.hostRoot.getD base.hostRoot
    timeout := set.timeout
    bridgeFile := (after.bridgeFile <|> before.bridgeFile).getD base.bridgeFile
    json := after.json || before.json
    verbose := if after.verbose = 0 then before.verbose else after.verbose
    confined := env.isConfined }

/-- Understands the arguments after the name of the program. -/
def parse (env : Environment) (args : List String) : Except Refusal Invocation := do
  match ← readBefore {} args with
  | (l, none) => throw (← withoutCommand env (← l.settle))
  | (l, some (verb, rest)) =>
    let after ← (← readAfter verb {} rest).settle
    let _ ← after.withEnvironment env
    let cmd ← command verb after
    let before ← l.settle
    let _ ← before.withEnvironment env
    invocation env cmd before after

end BuildTargets.CommandLine
