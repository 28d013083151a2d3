/-
  BuildTargets/Tree/Resolve.lean
  ==============================
  **Making a path free of links.**

  The library of the system makes up the path of what a path leads to name by
  name: it looks at what it has made up so far, puts the target of a link in its
  place, and goes on.  So not only the result has to be short enough for a path,
  but everything that is looked at on the way to it (`lookups`), and a name that
  has to be that of a directory is looked at with a slash behind it.
-/
import BuildTargets.Tree.Walk

namespace BuildTargets.Tree

open BuildTargets

/-- Whether what comes after a name takes it for a directory: a way up, or
    nothing more after a `.` or a slash at the end. -/
def demandsDir : (slash : Bool) → List RawText → Bool
  | slash, [] => slash
  | _, name :: rest => if name = "." then demandsDir true rest else name = ".."

/-- The path by which a place is looked at. -/
def probe (p : Place) (asDir : Bool) : RawText :=
  ⟨p.path.bytes ++ if asDir then [RawText.slash] else []⟩

/-- The paths that are looked at from the directory `here` on, up to the first
    link or to where there is no going on; `onLink` says which ones come after a
    link. -/
def probesFrom (t : Tree) (slash : Bool)
    (onLink : Place → RawText → List RawText → List RawText) :
    Place → List RawText → List RawText
  | _, [] => []
  | here, name :: rest =>
    if name = "." then probesFrom t slash onLink here rest
    else if name = ".." then probesFrom t slash onLink here.dropLast rest
    else
      let place := here ++ [name]
      let asDir := demandsDir slash rest
      match t.node? place with
      | some (.link target) => probe place false :: onLink here target rest
      | some n =>
        probe place asDir ::
          if n.isDir || !asDir then probesFrom t slash onLink place rest else []
      | none => [probe place asDir]

/-- The paths that are looked at on the way through the names from the directory
    `here`, while up to `links` links are followed. -/
def probes (t : Tree) : (links : Nat) → (slash : Bool) → Place → List RawText → List RawText
  | 0, slash => probesFrom t slash fun _ _ _ => []
  | links + 1, slash => probesFrom t slash fun here target rest =>
      let route := Route.ofPath target
      probes t links (slash || (rest.isEmpty && route.slash))
        (if route.absolute then [] else here) (route.names ++ rest)

/-- The paths that are looked at to make a path free of links. -/
def lookups (t : Tree) (path : RawText) : List RawText :=
  if 0 ∈ path.bytes then []
  else
    let route := Route.ofPath path
    probes t linkLimit route.slash [] route.names

end BuildTargets.Tree
