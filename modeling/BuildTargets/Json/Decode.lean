/-
  BuildTargets/Json/Decode.lean
  =============================
  **Taking typed data out of JSON values.**

  Each decoder says which values it takes; nothing is converted.  A *record* is
  an object whose known fields may stand in any order among unknown ones, but
  none twice, or an array of the fields in the order of their declaration,
  where fields at the end may be missing.
-/
import BuildTargets.Dict
import BuildTargets.Json

namespace BuildTargets.Json

open BuildTargets

variable {α : Type}

/-- A string literal that spells a text. -/
def text? : Json → Option String
  | .string text => text
  | _ => none

def bool? : Json → Option Bool
  | .bool b => some b
  | _ => none

/-- A natural number, written with digits alone. -/
def nat? : Json → Option Nat
  | .number literal =>
    if literal.all (·.isDigit) then
      some (literal.foldl (fun n c => n * 10 + (c.toNat - 48)) 0)
    else none
  | _ => none

/-- Null, or a value that the decoder takes. -/
def nullable? (value : Json → Option α) : Json → Option (Option α)
  | .null => some none
  | j => (value j).map some

def list? (value : Json → Option α) : Json → Option (List α)
  | .array items => items.mapM value
  | _ => none

/-- An object of values that the decoder takes; of one name the last value
    counts. -/
def dict? (value : Json → Option α) : Json → Option (Dict String α)
  | .object members =>
    (members.mapM fun (m : Option String × Json) => do return (← m.1, ← value m.2)).map Dict.ofList
  | _ => none

/-- Collects the known fields among the members of an object.  A known field
    must not be repeated, and every name has to spell a text. -/
def collectFields (known : List String) (found : Dict String Json) :
    List (Option String × Json) → Option (Dict String Json)
  | [] => some found
  | (none, _) :: _ => none
  | (some name, j) :: members =>
    if known.contains name then
      if found.contains name then none
      else collectFields known (found.insert name j) members
    else collectFields known found members

def record? (known : List String) : Json → Option (Dict String Json)
  | .object members => collectFields known Dict.empty members
  | .array items =>
    if items.length ≤ known.length then some (Dict.ofList (known.zip items)) else none
  | _ => none

def required (fields : Dict String Json) (name : String) (value : Json → Option α) : Option α :=
  match fields.get? name with
  | some j => value j
  | none => none

/-- A field that has a value of its own when it is missing. -/
def optional (fields : Dict String Json) (name : String) (absent : α) (value : Json → Option α) :
    Option α :=
  match fields.get? name with
  | some j => value j
  | none => some absent

end BuildTargets.Json
