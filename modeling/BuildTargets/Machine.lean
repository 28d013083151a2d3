/-
  BuildTargets/Machine.lean
  =========================
  **Machines that are described by a text.**

  The library starts no process and changes no file.  A command runs on a
  *machine*: a file tree, what its programs do, and whether it is run by an
  administrator.  A machine is described by a JSON object with up to three
  members:

  * `files`, a list of the entries that lay the tree out: `{"dir": path}`,
    `{"file": path, "text": contents}` and `{"link": path, "to": path}`, the
    first two with an octal `mode` if need be;
  * `client`, an object with the `path` of the client and its `rules`, each
    with the `args` that it answers and what the run does: `stdout`, `stderr`,
    `exit` or `signal`, and `times` if it is not always used;
  * `privileged`, whether the command has the rights of an administrator; it
    has them unless they are denied.
-/
import BuildTargets.Client.Script
import BuildTargets.Json.Decode
import BuildTargets.Json.Reader
import BuildTargets.Tree.Entry

namespace BuildTargets

/-- What a command runs on. -/
structure Machine where
  tree : Tree
  launch : Launcher
  /-- Commands have the rights of an administrator. -/
  privileged : Bool := true

namespace Machine

def bare : Machine where
  tree := Tree.bare
  launch := Launcher.missing

/-- Permission bits, written as a text of octal digits. -/
def mode? (j : Json) : Option Nat := do
  let digits := (← j.text?).toList
  if digits.all fun c => '0' ≤ c && c ≤ '7' then
    some (digits.foldl (fun n c => n * 8 + (c.toNat - 48)) 0)
  else none

def entry? (j : Json) : Option Tree.Entry := do
  let fields ← j.record? ["dir", "file", "link", "mode", "text", "to"]
  let text (name : String) := Json.optional fields name none (Json.nullable? Json.text?)
  match ← text "dir", ← text "file", ← text "link" with
  | some path, none, none =>
    return .dir path (← Json.optional fields "mode" Tree.newDirMode mode?)
  | none, some path, none =>
    return .file path (← Json.optional fields "mode" Tree.newFileMode mode?)
      (Text.encode ((← text "text").getD ""))
  | none, none, some path => return .link path (← Json.required fields "to" Json.text?)
  | _, _, _ => none

def rule? (j : Json) : Option Rule := do
  let fields ← j.record? ["args", "times", "stdout", "stderr", "exit", "signal"]
  let number (name : String) := Json.optional fields name none (Json.nullable? Json.nat?)
  let output (name : String) := return Text.encode (← Json.optional fields name "" Json.text?)
  let status : ExitStatus := match ← number "signal", ← number "exit" with
    | some n, _ => .signal n
    | none, some n => .code n
    | none, none => .code 0
  return {
    arguments := ← Json.required fields "args" (Json.list? Json.text?)
    uses := ← number "times"
    run := { stdout := ← output "stdout", stderr := ← output "stderr", status := status } }

/-- Puts a client that follows some rules into the tree of a machine, if its path
    allows that. -/
def withClient? (m : Machine) (path : String) (rules : List Rule) : Option Machine := do
  let t ← (m.tree.apply (.file path 0o755 [])).toOption
  let (place, _) ← (t.stat path).toOption
  return { m with tree := t, launch := Launcher.standing t place (.scripted rules) }

/-- The machine that a text describes; an empty text describes a bare one. -/
def ofText? (text : String) : Option Machine := do
  if text.toList.all Json.Reader.isSpace then return bare
  let fields ← (← Json.read? text).record? ["files", "client", "privileged"]
  let entries ← Json.optional fields "files" [] (Json.list? entry?)
  let machine : Machine := { bare with
    tree := ← (Tree.bare.applyAll entries).toOption
    privileged := ← Json.optional fields "privileged" true Json.bool? }
  match fields.get? "client" with
  | none => return machine
  | some j =>
    let client ← j.record? ["path", "rules"]
    machine.withClient? (← Json.required client "path" Json.text?)
      (← Json.optional client "rules" [] (Json.list? rule?))

end Machine

end BuildTargets
