/-
  BuildTargets/Client/Script.lean
  ===============================
  **A client that follows a script.**

  A script is a list of rules.  An invocation is answered by the first rule
  whose arguments it begins with and which has uses left; without such a rule
  the client succeeds and prints nothing.  How many uses are left follows from
  the earlier invocations, so a script is a launcher.
-/
import BuildTargets.Client
import BuildTargets.Tree.Access

namespace BuildTargets

/-- One answer of a scripted client. -/
structure Rule where
  /-- The arguments that an invocation has to begin with. -/
  arguments : List String
  /-- How often the rule may still be used; without a number, always. -/
  uses : Option Nat := none
  run : ClientRun
deriving Repr

namespace Rule

def applies (r : Rule) (arguments : List String) : Bool :=
  r.arguments.isPrefixOf arguments && r.uses ≠ some 0

/-- The answer of the first rule that applies, and the rules with its use taken
    off. -/
def serve (arguments : List String) : List Rule → Option ClientRun × List Rule
  | [] => (none, [])
  | r :: rules =>
    if r.applies arguments then (some r.run, { r with uses := r.uses.map (· - 1) } :: rules)
    else
      let (run, rules) := serve arguments rules
      (run, r :: rules)

end Rule

def Launcher.scripted (rules : List Rule) : Launcher := fun _ earlier arguments =>
  let rules := earlier.foldl (fun rules arguments => (Rule.serve arguments rules).2) rules
  .ok ((Rule.serve arguments rules).1.getD {})

/-- A system without any program. -/
def Launcher.missing : Launcher := fun _ _ _ => .error .notFound

/-- A system whose only program stands at one place of a tree.  A program is
    started by its path; a bare name is not found.  What is not executable is
    refused. -/
def Launcher.standing (t : Tree) (place : Place) (launch : Launcher) : Launcher :=
  fun program earlier arguments =>
    if !program.toList.contains '/' then .error .notFound
    else match t.stat program with
      | .error e => .error e
      | .ok (found, .file mode _) =>
        if mode &&& 0o111 = 0 then .error .accessDenied
        else if found = place then launch program earlier arguments
        else .error .notExecutable
      | .ok (_, _) => .error .accessDenied

end BuildTargets
