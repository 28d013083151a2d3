/-
  BuildTargets/Json/Literal.lean
  ==============================
  **String and number literals of JSON, read one character at a time.**

  Both are automata.  `Quoted` is inside a string literal: it collects the
  characters that the literal spells and combines escaped surrogate pairs.
  `Numeral` is inside a number: its states are the places in the grammar
  `-? (0 | [1-9][0-9]*) (. [0-9]+)? ([eE] [+-]? [0-9]+)?`.
-/
import BuildTargets.Json

namespace BuildTargets.Json

/-! ### String literals -/

def hexDigit? (c : Char) : Option Nat :=
  if '0' ≤ c ∧ c ≤ '9' then some (c.toNat - 48)
  else if 'a' ≤ c ∧ c ≤ 'f' then some (c.toNat - 87)
  else if 'A' ≤ c ∧ c ≤ 'F' then some (c.toNat - 55)
  else none

def shortEscape? : Char → Option Char
  | '"' => some '"'
  | '\\' => some '\\'
  | '/' => some '/'
  | 'b' => some '\x08'
  | 'f' => some '\x0c'
  | 'n' => some '\n'
  | 'r' => some '\r'
  | 't' => some '\t'
  | _ => none

/-- Where in an escape sequence a reader is. -/
inductive EscapeState where
  /-- In none. -/
  | plain
  /-- After the backslash. -/
  | begun
  /-- In `\u`, with some digits still to come and the value of those read. -/
  | unicode (missing value : Nat)
deriving DecidableEq, Repr

/-- The inside of a string literal, as far as it has been read. -/
structure Quoted where
  /-- The characters spelled so far, last first; nothing once the literal has
      spelled something that is no character. -/
  spelled : Option (List Char) := some []
  /-- An escaped high surrogate that waits for its other half. -/
  high : Option Nat := none
  escape : EscapeState := .plain
deriving DecidableEq, Repr

namespace Quoted

/-- Adds a character; a half surrogate pair before it spells nothing. -/
def push (q : Quoted) (c : Char) : Quoted where
  spelled := if q.high.isSome then none else q.spelled.map (c :: ·)

def pushUnit (q : Quoted) (unit : Nat) : Quoted :=
  if 0xD800 ≤ unit ∧ unit < 0xDC00 then
    { spelled := if q.high.isSome then none else q.spelled, high := some unit }
  else if 0xDC00 ≤ unit ∧ unit < 0xE000 then
    match q.high with
    | some high =>
      { spelled := q.spelled.map
          (Char.ofNat (0x10000 + (high - 0xD800) * 0x400 + (unit - 0xDC00)) :: ·) }
    | none => { spelled := none }
  else q.push (Char.ofNat unit)

/-- The text of a finished literal, if it spells one. -/
def text (q : Quoted) : Option String :=
  if q.high.isSome then none else q.spelled.map fun cs => String.ofList cs.reverse

/-- What a character does inside a literal: it goes on, ends the literal
    (`inr`), or cannot stand there. -/
def step (q : Quoted) (c : Char) : Option (Quoted ⊕ Option String) :=
  match q.escape with
  | .plain =>
    if c = '"' then some (.inr q.text)
    else if c = '\\' then some (.inl { q with escape := .begun })
    else if c.toNat < 0x20 then none
    else some (.inl (q.push c))
  | .begun =>
    if c = 'u' then some (.inl { q with escape := .unicode 4 0 })
    else (shortEscape? c).map fun d => .inl (q.push d)
  | .unicode missing value =>
    match hexDigit? c with
    | none => none
    | some digit =>
      let value := value * 16 + digit
      if missing ≤ 1 then some (.inl ({ q with escape := .plain }.pushUnit value))
      else some (.inl { q with escape := .unicode (missing - 1) value })

end Quoted

/-! ### Numbers -/

/-- The places in a number. -/
inductive Numeral where
  /-- After the sign. -/
  | sign
  /-- After a leading zero. -/
  | zero
  /-- Among the digits before the point. -/
  | whole
  /-- After the point. -/
  | point
  /-- Among the digits after the point. -/
  | places
  /-- After the mark of the exponent. -/
  | mark
  /-- After the sign of the exponent. -/
  | markSign
  /-- Among the digits of the exponent. -/
  | exponent
deriving DecidableEq, Repr

namespace Numeral

/-- The place after the first character of a number. -/
def start? (c : Char) : Option Numeral :=
  if c = '-' then some sign
  else if c = '0' then some zero
  else if c.isDigit then some whole
  else none

/-- The place after one more character of a number. -/
def step? (n : Numeral) (c : Char) : Option Numeral :=
  match n with
  | sign => if c = '0' then some zero else if c.isDigit then some whole else none
  | zero => if c = '.' then some point else if c = 'e' ∨ c = 'E' then some mark else none
  | whole =>
    if c.isDigit then some whole
    else if c = '.' then some point else if c = 'e' ∨ c = 'E' then some mark else none
  | point => if c.isDigit then some places else none
  | places => if c.isDigit then some places else if c = 'e' ∨ c = 'E' then some mark else none
  | mark => if c.isDigit then some exponent else if c = '+' ∨ c = '-' then some markSign else none
  | markSign => if c.isDigit then some exponent else none
  | exponent => if c.isDigit then some exponent else none

def isComplete : Numeral → Bool
  | zero | whole | places | exponent => true
  | sign | point | mark | markSign => false

end Numeral

end BuildTargets.Json
