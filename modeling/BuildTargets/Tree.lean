/-
  BuildTargets/Tree.lean
  ======================
  **The file tree of a machine.**

  A tree is a dictionary from places to what stands there: directories and
  files with their permission bits, and symbolic links with their targets.  A
  *place* is the list of names on the way down from the root, links resolved;
  a path names a place only by being followed through the tree, which
  `Tree.Walk` does.  Names and targets are what the system has, any bytes.
-/
import BuildTargets.Dict
import BuildTargets.Text.Raw

namespace BuildTargets

/-- The names on the way from the root to something in the tree. -/
abbrev Place := List RawText

/-- What stands at a place. -/
inductive Node where
  /-- A directory with its permission bits. -/
  | dir (mode : Nat)
  /-- A file with its permission bits and contents. -/
  | file (mode : Nat) (content : List UInt8)
  | link (target : RawText)
deriving DecidableEq, Repr, Inhabited

namespace Node

/-- Whether a directory itself stands there. -/
def isDir : Node → Bool
  | dir _ => true
  | _ => false

/-- The permission bits.  A link has all of them, and they mean nothing. -/
def mode : Node → Nat
  | dir m => m
  | file m _ => m
  | link _ => 0o777

/-- The node with other permission bits; a link has none of its own. -/
def withMode (m : Nat) : Node → Node
  | dir _ => dir m
  | file _ c => file m c
  | link t => link t

end Node

namespace Place

/-- Places are in the order of their names. -/
instance : LE Place := List.instLE

def path (p : Place) : RawText :=
  ⟨RawText.slash :: Text.joinWith RawText.slash (p.map RawText.bytes)⟩

/-- Whether a place is `top` or lies below it. -/
def isWithin (top p : Place) : Bool := top.isPrefixOf p

end Place

/-- What stands where on a machine. -/
structure Tree where
  nodes : Dict Place Node
deriving DecidableEq, Inhabited

namespace Tree

def bare : Tree := ⟨Dict.empty.insert [] (.dir 0o755)⟩

def node? (t : Tree) (p : Place) : Option Node := t.nodes.get? p

/-- Puts something at a place, instead of what stood there. -/
def put (t : Tree) (p : Place) (n : Node) : Tree := ⟨t.nodes.insert p n⟩

/-- Takes a place and everything below it away. -/
def prune (t : Tree) (p : Place) : Tree := ⟨t.nodes.filterKeys (!Place.isWithin p ·)⟩

/-- Sets the permission bits of what stands at a place. -/
def setMode (t : Tree) (p : Place) (mode : Nat) : Tree :=
  match t.node? p with
  | some n => t.put p (n.withMode mode)
  | none => t

/-- A node as an entry of the directory at `p`: its name there and what it is. -/
def entryIn (p : Place) (e : Place × Node) : Option (RawText × Node) :=
  match e.1.getLast? with
  | some name => if e.1.dropLast = p then some (name, e.2) else none
  | none => none

/-- The names in the directory at a place, with what stands there, in the order
    of the names. -/
def children (t : Tree) (p : Place) : List (RawText × Node) :=
  t.nodes.toList.filterMap (entryIn p)

theorem node?_put (t : Tree) (p q : Place) (n : Node) :
    (t.put p n).node? q = if q = p then some n else t.node? q :=
  Dict.get?_insert ..

theorem node?_setMode (t : Tree) (p q : Place) (mode : Nat) :
    (t.setMode p mode).node? q = if q = p then (t.node? q).map (·.withMode mode) else t.node? q := by
  rw [setMode]
  split
  · next n h =>
    rw [node?_put]
    split
    · next hq => rw [hq, h, Option.map_some]
    · rfl
  · next h =>
    split
    · next hq => rw [hq, h, Option.map_none]
    · rfl

/-- Two trees with the same nodes are the same. -/
theorem ext_node? {t u : Tree} (h : ∀ p, t.node? p = u.node? p) : t = u := by
  cases t
  cases u
  exact congrArg Tree.mk (Dict.ext_get? h)

end Tree

end BuildTargets
