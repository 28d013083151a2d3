/-
  BuildTargets/Path.lean
  ======================
  **Paths as texts: joining them, and what lies below the root.**

  A path is the text that names a file, shown to the user as it was put
  together.  `join` puts a path below another one, unless it is absolute and
  stands for itself.  `belowRoot` takes the leading `/` of an absolute path
  away, so that the rest can be joined to another root; fillers (empty names
  and `.`) next to either end go with it.
-/
import BuildTargets.Text.Blank
import BuildTargets.Text.Split

namespace BuildTargets.Path

open BuildTargets

/-- Whether a path starts at the root. -/
def isAbsolute (path : String) : Bool := path.toList.head? = some '/'

/-- The path `leaf` seen from the directory `base`.  An absolute path is its
    own; an empty one marks `base` as a directory. -/
def join (base leaf : String) : String :=
  if isAbsolute leaf then leaf
  else if base = "" || base.toList.getLast? = some '/' then base ++ leaf
  else base ++ "/" ++ leaf

/-- Whether a name between slashes leads nowhere. -/
def isFiller (name : List Char) : Bool := name = [] || name = ['.']

/-- The names between the slashes of a path, fillers included. -/
def names (path : String) : List String := (Text.split '/' path.toList).map String.ofList

/-- The names that a path passes through; `..` counts as one. -/
def steps (path : String) : List String :=
  ((Text.split '/' path.toList).filter (!isFiller ·)).map String.ofList

/-- What follows the root in an absolute path, without the fillers at its
    ends; a relative path stays as it is. -/
def belowRoot (path : String) : String :=
  if isAbsolute path then
    String.ofList (Text.joinWith '/' (Text.strip isFiller (Text.split '/' path.toList)))
  else path

end BuildTargets.Path
