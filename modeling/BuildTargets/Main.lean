/-
  BuildTargets/Main.lean
  ======================
  **The program.**

  A thin layer around `CommandLine.run`: arguments and environment come from the
  system, the description of the machine from standard input, and output and
  exit status go back to the system.  Nothing asks who runs the program: the
  description says whether it is an administrator.
-/
import BuildTargets.CommandLine.Session
import BuildTargets.Machine

open BuildTargets

def processEnvironment : IO Environment :=
  return {
    client := ← IO.getEnv "USDK_LXC"
    dataDir := ← IO.getEnv "LXD_DIR"
    hostRoot := ← IO.getEnv "USDK_HOST_ROOT"
    timeout := ← IO.getEnv "USDK_WAIT_TIMEOUT"
    snap := ← IO.getEnv "SNAP" }

/-- Runs a command line on the machine that standard input describes. -/
def main (args : List String) : IO UInt32 := do
  let input ← IO.getStdin
  let description ← input.readToEnd
  match Machine.ofText? description with
  | none =>
    (← IO.getStderr).putStr "Error: the description of the machine cannot be read\n"
    return 1
  | some machine =>
    let result :=
      CommandLine.run (← processEnvironment) args machine.launch machine.tree machine.privileged
    (← IO.getStdout).putStr result.stdout
    (← IO.getStderr).putStr result.stderr
    return UInt32.ofNat result.exitStatus
