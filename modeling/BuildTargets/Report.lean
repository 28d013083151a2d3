/-
  BuildTargets/Report.lean
  ========================
  **What commands print.**

  A report is a table of targets, the status of a container, the path of a root
  file system or a message.  `text` is its form for people, `json` its form for
  programs, which loses nothing.
-/
import BuildTargets.Container
import BuildTargets.Json.Printer
import BuildTargets.Text.Blank

namespace BuildTargets

/-- The status of a container and its address. -/
structure StatusReport where
  status : String
  ipv4 : Option String
deriving DecidableEq, Repr, Inhabited

/-- Something that a command prints. -/
inductive Report where
  | targets (ts : List Target)
  | status (s : StatusReport)
  | rootfs (path : String)
  | message (text : String)
deriving DecidableEq, Repr, Inhabited

namespace Report

/-! ### Tables -/

/-- A text with blanks after it, so that it has at least `width` characters. -/
def pad (width : Nat) (s : String) : String :=
  s ++ String.ofList (List.replicate (width - s.length) ' ')

/-- The narrowest column for architectures, in characters. -/
def architectureWidth : Nat := 12

/-- A line of a table with a name column of some width. -/
def row (width : Nat) (name architecture framework : String) : String :=
  pad width name ++ "  " ++ pad architectureWidth architecture ++ "  " ++ framework ++ "\n"

/-- The width of the name column: the longest name in bytes, or the heading. -/
def nameWidth (ts : List Target) : Nat :=
  ts.foldl (fun width t => max width t.name.utf8ByteSize) "NAME".length

/-- The table of some targets, in their order under a heading. -/
def table (ts : List Target) : String :=
  if ts.isEmpty then "No build targets found"
  else
    let width := nameWidth ts
    Text.trimEnd (row width "NAME" "ARCHITECTURE" "FRAMEWORK" ++
      String.join (ts.map fun t => row width t.name t.architecture t.framework))

/-! ### The two forms -/

def text : Report → String
  | targets ts => table ts
  | status s =>
    "Status: " ++ s.status ++ match s.ipv4 with
      | some address => "\nIPv4:   " ++ address
      | none => ""
  | rootfs path => path
  | message text => text

def textMember (name value : String) : Option String × Json := (some name, .string (some value))

def targetJson (t : Target) : Json :=
  .object [textMember "architecture" t.architecture, textMember "framework" t.framework,
    textMember "name" t.name]

/-- A report as a JSON value; the members of an object are in the order of their
    names. -/
def toJson : Report → Json
  | targets ts => .array (ts.map targetJson)
  | status s =>
    .object ((match s.ipv4 with
      | some address => [textMember "ipv4" address]
      | none => []) ++ [textMember "status" s.status])
  | rootfs path => .object [textMember "rootfs" path]
  | message text => .object [textMember "message" text]

def json (r : Report) : String := r.toJson.pretty

end Report

end BuildTargets
