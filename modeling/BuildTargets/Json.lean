/-
  BuildTargets/Json.lean
  ======================
  **JSON values.**

  The client answers in JSON, and reports can be asked for in JSON.  A value
  keeps what a reader may want to know of its text: the members of an object in
  the order written, repeated names included, and the digits of a number.

  A string literal can escape one half of a surrogate pair without the other.
  Such a literal is well formed but spells no text; its value is `none`.
-/

namespace BuildTargets

/-- A JSON value. -/
inductive Json where
  | null
  | bool (b : Bool)
  | number (literal : List Char)
  /-- A string literal, with the text it spells. -/
  | string (text : Option String)
  | array (items : List Json)
  | object (members : List (Option String × Json))
deriving Inhabited

end BuildTargets
