/-
  BuildTargets/Tree/Access.lean
  =============================
  **What the program asks of the file tree.**

  Looking at a path (`stat`, `linkStat`, `isPresent`), resolving it
  (`realPath`), reading a text file or a directory, and the only two changes
  that are ever made: setting permission bits and writing a file.  Every
  request follows its path through the tree and fails the way the system does;
  a failed request changes nothing, because a tree is only given back on
  success.
-/
import BuildTargets.Tree.Resolve

namespace BuildTargets.Tree

open BuildTargets

/-! ### Looking -/

/-- A landing that has to be a node. -/
def standing : Landing → Except IoError (Place × Node)
  | .node place n => .ok (place, n)
  | .gap _ _ => .error .notFound

/-- What a path leads to, links followed. -/
def stat (t : Tree) (path : RawText) : Except IoError (Place × Node) :=
  t.walk false path >>= standing

/-- What a path names, a link in the last place being named itself. -/
def linkStat (t : Tree) (path : RawText) : Except IoError (Place × Node) :=
  t.walk true path >>= standing

/-- Whether a path leads to anything.  Only a missing path is absent; any other
    failure to look is an error. -/
def isPresent (t : Tree) (path : RawText) : Except IoError Bool :=
  match t.stat path with
  | .ok _ => .ok true
  | .error e => if e = .notFound then .ok false else .error e

/-- The absolute path, free of links, of what a path leads to.  What is looked at
    on the way must not be too long for a path. -/
def realPath (t : Tree) (path : RawText) : Except IoError RawText := do
  if (t.lookups path).any (pathLimit < ·.byteSize) then throw .nameTooLong
  let (place, _) ← t.stat path
  return place.path

/-! ### Reading -/

def readText (t : Tree) (path : RawText) : Except IoError String := do
  match ← t.stat path with
  | (_, .file _ content) =>
    match Text.decode? content with
    | some s => .ok s
    | none => .error .notUtf8
  | (_, _) => .error .isDirectory

/-- The entries of a directory, in the order of their names. -/
def listDir (t : Tree) (path : RawText) : Except IoError (List (RawText × Node)) := do
  match ← t.stat path with
  | (place, .dir _) => .ok (t.children place)
  | (_, _) => .error .notDirectory

/-! ### Changing -/

/-- Sets the permission bits of what a path leads to. -/
def chmod (t : Tree) (path : RawText) (mode : Nat) : Except IoError Tree := do
  let (place, _) ← t.stat path
  return t.setMode place mode

/-- The permission bits of a file that has just been created. -/
def newFileMode : Nat := 0o644

/-- Gives the file that a path leads to new contents, creating it in an
    existing directory if it is not there. -/
def writeFile (t : Tree) (path : RawText) (content : List UInt8) : Except IoError Tree := do
  match ← t.walk false path with
  | .node place (.file mode _) => return t.put place (.file mode content)
  | .node _ _ => throw .isDirectory
  | .gap place slash =>
    if slash then throw .isDirectory else return t.put place (.file newFileMode content)

end BuildTargets.Tree

namespace BuildTargets

/-- A change of the file tree. -/
inductive HostChange where
  /-- What a path leads to gets other permission bits. -/
  | chmod (path : RawText) (mode : Nat)
  /-- The file that a path leads to gets new contents. -/
  | write (path : RawText) (content : List UInt8)
deriving DecidableEq, Repr, Inhabited

def HostChange.apply (t : Tree) : HostChange → Except IoError Tree
  | chmod path mode => t.chmod path mode
  | write path content => t.writeFile path content

end BuildTargets
