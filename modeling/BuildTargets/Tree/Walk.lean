/-
  BuildTargets/Tree/Walk.lean
  ===========================
  **Following a path through the tree.**

  A path is followed name by name from the root.  `.` stays, `..` goes up, a
  symbolic link is replaced by its target, and every name but the last has to
  lead into a directory; a slash at the end asks for a directory too.  At most
  `linkLimit` links are followed, so a loop of links ends in an error.

  The walk ends in a `Landing`: at a node, or at a gap, that is at a name that
  an existing directory does not hold.  Asking for a file makes an error of a
  gap; creating one fills it.
-/
import BuildTargets.IoError
import BuildTargets.Tree

namespace BuildTargets

/-- Where following a path ends. -/
inductive Landing where
  | node (place : Place) (n : Node)
  /-- Nothing does, but the directory it would be in exists.  `slash` tells
      whether the path insists on a directory. -/
  | gap (place : Place) (slash : Bool)
deriving DecidableEq, Repr

/-- A path cut into the names to go through. -/
structure Route where
  /-- The path starts at the root. -/
  absolute : Bool
  names : List RawText
  /-- The path ends in a slash. -/
  slash : Bool
deriving DecidableEq, Repr

/-- The names of a path; empty ones lead nowhere and are left out. -/
def Route.ofPath (path : RawText) : Route where
  absolute := path.bytes.head? = some RawText.slash
  names := path.fields.filter (·.bytes ≠ [])
  slash := path.bytes.getLast? = some RawText.slash

namespace Tree

/-- The longest name that a directory can hold, in bytes. -/
def nameLimit : Nat := 255

/-- The longest path that the system takes, in bytes. -/
def pathLimit : Nat := 4095

/-- The number of links that are followed on one path. -/
def linkLimit : Nat := 40

/-- Goes down from the directory `here` through the names up to the first link
    that has to be followed, which `onLink` takes over with the directory it
    stands in, its target and the names after it.  `keepLast` leaves a link in
    the last place alone. -/
def descend (t : Tree) (keepLast slash : Bool)
    (onLink : Place → RawText → List RawText → Except IoError Landing) :
    Place → List RawText → Except IoError Landing
  | here, [] =>
    match t.node? here with
    | some n => .ok (.node here n)
    | none => .error .notFound
  | here, name :: rest =>
    if name = "." then descend t keepLast slash onLink here rest
    else if name = ".." then descend t keepLast slash onLink here.dropLast rest
    else if nameLimit < name.byteSize then .error .nameTooLong
    else match t.node? (here ++ [name]) with
      | some (.dir _) => descend t keepLast slash onLink (here ++ [name]) rest
      | some (.file mode content) =>
        if rest.isEmpty && !slash then .ok (.node (here ++ [name]) (.file mode content))
        else .error .notDirectory
      | some (.link target) =>
        if rest.isEmpty && !slash && keepLast then .ok (.node (here ++ [name]) (.link target))
        else onLink here target rest
      | none => if rest.isEmpty then .ok (.gap (here ++ [name]) slash) else .error .notFound

/-- Goes through the names from the directory `here`, following up to `links`
    links. -/
def follow (t : Tree) (keepLast : Bool) :
    (links : Nat) → (slash : Bool) → Place → List RawText → Except IoError Landing
  | 0, slash => descend t keepLast slash fun _ _ _ => .error .tooManyLinks
  | links + 1, slash => descend t keepLast slash fun here target rest =>
      let route := Route.ofPath target
      follow t keepLast links (slash || (rest.isEmpty && route.slash))
        (if route.absolute then [] else here) (route.names ++ rest)

/-- Follows a path; `keepLast` does not follow a link in the last place.  A
    relative path starts at the root. -/
def walk (t : Tree) (keepLast : Bool) (path : RawText) : Except IoError Landing :=
  if 0 ∈ path.bytes then .error .nulInPath
  else if path.bytes = [] then .error .notFound
  else if pathLimit < path.byteSize then .error .nameTooLong
  else
    let route := Route.ofPath path
    follow t keepLast linkLimit route.slash [] route.names

end Tree

end BuildTargets
