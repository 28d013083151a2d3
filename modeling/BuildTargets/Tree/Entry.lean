/-
  BuildTargets/Tree/Entry.lean
  ============================
  **Laying out a file tree.**

  A tree is described by a list of entries, applied in order: directories and
  files with their permission bits, links, and removals.  Directories on the
  way are made as needed, with links on the way followed.  A list with an entry
  that the system would refuse describes nothing.
-/
import BuildTargets.Tree.Access

namespace BuildTargets.Tree

open BuildTargets

/-- One step in laying out a tree. -/
inductive Entry where
  /-- A directory with its parents; an existing one only gets the bits. -/
  | dir (path : RawText) (mode : Nat)
  /-- A file with the directories above it. -/
  | file (path : RawText) (mode : Nat) (content : List UInt8)
  /-- A link with the directories above it, in the place of a file or link. -/
  | link (path : RawText) (target : RawText)
  /-- Nothing: whatever is at the path is taken away, a link itself. -/
  | absent (path : RawText)
deriving Repr

/-- The permission bits of a directory that has just been made. -/
def newDirMode : Nat := 0o755

/-- Makes the directories on the way through some names, from a place on; gives
    the place reached.  A link on the way has to lead to a directory. -/
def makeWay (t : Tree) (here : Place) : List RawText → Except IoError (Tree × Place)
  | [] => .ok (t, here)
  | name :: rest =>
    match t.follow false linkLimit false here [name] with
    | .ok (.node place (.dir _)) => makeWay t place rest
    | .ok (.node _ _) => .error .notDirectory
    | .ok (.gap place _) =>
      if place = here ++ [name] then makeWay (t.put place (.dir newDirMode)) place rest
      else .error .notFound
    | .error e => .error e

/-- The names of a path but the last, and the last. -/
def parentNames (path : RawText) : List RawText := (Route.ofPath path).names.dropLast

/-- Accepts the text of a link's target.  The system makes no link without a
    target, nor one whose target could not be a path. -/
def checkTarget (target : RawText) : Except IoError Unit :=
  if 0 ∈ target.bytes then .error .nulInPath
  else if target.bytes = [] then .error .notFound
  else if pathLimit < target.byteSize then .error .nameTooLong
  else .ok ()

def apply (t : Tree) : Entry → Except IoError Tree
  | .dir path mode => do
    let (t, place) ← t.makeWay [] (Route.ofPath path).names
    return t.setMode place mode
  | .file path mode content => do
    let (t, _) ← t.makeWay [] (parentNames path)
    let t ← t.writeFile path content
    t.chmod path mode
  | .link path target => do
    checkTarget target
    let (t, _) ← t.makeWay [] (parentNames path)
    match ← t.walk true path with
    | .node place n => if n.isDir then throw .isDirectory else return t.put place (.link target)
    | .gap place slash => if slash then throw .notFound else return t.put place (.link target)
  | .absent path =>
    match t.linkStat path with
    | .ok (place, _) => return t.prune place
    | .error _ => return t

/-- Applies entries in order; the first that cannot be applied ends it. -/
def applyAll (t : Tree) (entries : List Entry) : Except IoError Tree := entries.foldlM apply t

end BuildTargets.Tree
