/-
  BuildTargets/HostView.lean
  ==========================
  **Where things are on the host.**

  Every host path that the library looks at is a fixed convention, written as a
  *logical* path from the root of the host.  A `HostView` says where that root
  is, where the container service keeps its data, and whether the device files
  of the host are out of reach.
-/
import BuildTargets.Path
import BuildTargets.Tree.Access

namespace BuildTargets

/-- How the program sees the host. -/
structure HostView where
  /-- Where the root of the host is. -/
  root : String := "/"
  /-- The data directory of the container service, as a logical path. -/
  dataDir : String := "/var/lib/lxd"
  /-- The process is confined and cannot reach device files. -/
  confined : Bool := false
deriving DecidableEq, Repr, Inhabited

namespace HostView

/-- The path of something on the host.  A logical path never replaces the
    root. -/
def path (h : HostView) (logical : String) : String := Path.join h.root (Path.belowRoot logical)

/-- The logical path of the directory of a container. -/
def dirOf (h : HostView) (container : String) : String :=
  Path.join (Path.join h.dataDir "containers") container

/-- The logical path of the root file system of a container. -/
def rootfsOf (h : HostView) (container : String) : String :=
  Path.join (h.dirOf container) "rootfs"

/-- Whether there is something at a logical path, links followed. -/
def isPresent (h : HostView) (t : Tree) (logical : String) : Except IoError Bool :=
  t.isPresent (h.path logical)

/-- A path without the slashes at its end. -/
def withoutTrailingSlashes (path : String) : String :=
  String.ofList (Text.stripEnd (· = '/') path.toList)

/-- Puts a path where it belongs among paths in order. -/
def insertPath (path : String) : List String → List String
  | [] => [path]
  | p :: ps => if path ≤ p then path :: p :: ps else p :: insertPath path ps

/-- Paths in order, each as often as it is given. -/
def sortPaths (paths : List String) : List String := paths.foldr insertPath []

/-- The logical paths of what a directory holds under the names of a class,
    directories left out, in order.  A directory that is not there holds
    nothing; a link counts as what it is, not as what it leads to.  Names are
    taken as texts, so a name that is not UTF-8 is listed under another one,
    and one path may stand for several entries. -/
def nodes (h : HostView) (t : Tree) (dir : String) (isWanted : String → Bool) :
    Except IoError (List String) :=
  match t.listDir (h.path dir) with
  | .ok entries =>
    .ok (sortPaths ((entries.filter fun e => isWanted e.1.shown && !e.2.isDir).map fun e =>
      withoutTrailingSlashes dir ++ "/" ++ e.1.shown))
  | .error e => if e = .notFound then .ok [] else .error e

end HostView

end BuildTargets
