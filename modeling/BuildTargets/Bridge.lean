/-
  BuildTargets/Bridge.lean
  ========================
  **The configuration of the network bridge.**

  The bridge is configured by a file of `KEY="value"` lines.  Containers can be
  reached once the bridge is enabled and has an IPv4 address.  Of the lines that
  set a key the last counts; comments, and lines without exactly one `=`, set
  nothing.
-/
import BuildTargets.Failure
import BuildTargets.Text.Blank
import BuildTargets.Text.Split
import BuildTargets.Tree.Access

namespace BuildTargets.Bridge

open BuildTargets

def defaultFile : String := "/etc/default/lxd-bridge"

def enabledKey : List Char := "USE_LXD_BRIDGE".toList

def addressKey : List Char := "LXD_IPV4_ADDR".toList

/-- The key and the value that a line sets, if it sets one.  Both are without
    blank ends, and the value is then without the quotes around it. -/
def assignment? (line : List Char) : Option (List Char × List Char) :=
  if line.head? = some '#' then none
  else match Text.split '=' line with
    | [key, value] =>
      some (Text.strip Text.isBlank key, Text.strip (· = '"') (Text.strip Text.isBlank value))
    | _ => none

def assignments (text : String) : List (List Char × List Char) :=
  (Text.lines text.toList).filterMap assignment?

def setting? (text : String) (key : List Char) : Option (List Char) :=
  (((assignments text).filter (·.1 = key)).map (·.2)).getLast?

/-- Whether a configuration gives the bridge a subnet. -/
def isConfigured (text : String) : Bool :=
  setting? text enabledKey = some "true".toList &&
    match setting? text addressKey with
    | some value => value ≠ []
    | none => false

/-- Accepts a configuration that gives the bridge a subnet. -/
def checkText (text : String) : Except Failure Unit :=
  if isConfigured text then .ok ()
  else .error (.bridgeNotConfigured
    "lxd-bridge needs USE_LXD_BRIDGE=\"true\" and an LXD_IPV4_ADDR")

/-- Accepts a configuration file that gives the bridge a subnet. -/
def checkFile (t : Tree) (path : String) : Except Failure Unit :=
  match t.readText path with
  | .ok text => checkText text
  | .error e => .error (.bridgeNotConfigured ("could not read " ++ path ++ ": " ++ e.message))

end BuildTargets.Bridge
