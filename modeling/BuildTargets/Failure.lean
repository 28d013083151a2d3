/-
  BuildTargets/Failure.lean
  =========================
  **Why a request was not carried out.**

  Every action of the library either gives its result or ends in a `Failure`.
  A failure has a text for the user, a broad class, an exit status of the
  command line that follows from the class, and the answer to whether trying
  again could help.
-/
import BuildTargets.Duration
import BuildTargets.IoError

namespace BuildTargets

/-- A difference between what a container is and what it has to be. -/
structure Drift where
  container : String
  /-- The host path or the device at which it differs. -/
  resource : String
  reason : String
deriving DecidableEq, Repr, Inhabited

def Drift.text (d : Drift) : String := d.container ++ ": " ++ d.reason ++ " (" ++ d.resource ++ ")"

/-- What ended an action. -/
inductive Failure where
  | unreachable (detail : String)
  | drift (d : Drift)
  | repairFailed (container detail : String)
  | operationFailed (operation detail : String)
  | operationTimedOut (operation : String) (limit : Duration)
  | operationCancelled (operation : String)
  | inspectionFailed (container detail : String)
  | permissionDenied (detail : String)
  | noContainer (name : String)
  | unexpectedAnswer (detail : String)
  | bridgeNotConfigured (detail : String)
  | io (e : IoError)
deriving DecidableEq, Repr, Inhabited

/-- The broad classes of failures. -/
inductive FailureClass where
  | connection
  | drift
  | repair
  | general
deriving DecidableEq, Repr, Inhabited

def unreachableStatus : Nat := 255

def driftStatus : Nat := 254

def bridgeStatus : Nat := 253

def failureStatus : Nat := 1

namespace Failure

def message : Failure → String
  | unreachable detail => "Could not talk to the container backend: " ++ detail
  | drift d => "Container needs fixing: " ++ d.text
  | repairFailed container detail => "Failed to fix container " ++ container ++ ": " ++ detail
  | operationFailed operation detail =>
    "Backend operation '" ++ operation ++ "' failed: " ++ detail
  | operationTimedOut operation limit =>
    "Backend operation '" ++ operation ++ "' did not finish within " ++ limit.text
  | operationCancelled operation => "Backend operation '" ++ operation ++ "' was cancelled"
  | inspectionFailed container detail =>
    "Failed to inspect container " ++ container ++ ": " ++ detail
  | permissionDenied detail => "Permission denied: " ++ detail
  | noContainer name => "Container not found: " ++ name
  | unexpectedAnswer detail => "Unexpected backend response: " ++ detail
  | bridgeNotConfigured detail => "LXD bridge is not configured: " ++ detail
  | io e => "IO error: " ++ e.message

def failureClass : Failure → FailureClass
  | unreachable _ => .connection
  | drift _ => .drift
  | repairFailed _ _ | operationFailed _ _ | operationTimedOut _ _ | operationCancelled _
  | permissionDenied _ => .repair
  | inspectionFailed _ _ | noContainer _ | unexpectedAnswer _ | bridgeNotConfigured _ | io _ =>
    .general

/-- Whether the same request could succeed later with nothing fixed in
    between. -/
def isTransient : Failure → Bool
  | unreachable _ | operationTimedOut _ _ | operationCancelled _ => true
  | _ => false

/-- The difference that a failure reports, if it reports one. -/
def drift? : Failure → Option Drift
  | drift d => some d
  | _ => none

def exitStatus (f : Failure) : Nat :=
  match f with
  | bridgeNotConfigured _ => bridgeStatus
  | _ => match f.failureClass with
    | .connection => unreachableStatus
    | .drift => driftStatus
    | .repair | .general => failureStatus

end Failure

/-- An action on a state: it may change the state, and it gives a result or ends
    in a failure.  What had been changed before a failure stays changed. -/
abbrev Action (σ : Type) := EStateM Failure σ

end BuildTargets
