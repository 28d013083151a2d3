/-
  BuildTargets/Json/Printer.lean
  ==============================
  **Writing JSON over several lines.**

  Items and members stand on lines of their own, two blanks further in than
  what holds them; what is empty stays on its line.  In a string only the quote,
  the backslash and the control characters below U+0020 are escaped.
-/
import BuildTargets.Json

namespace BuildTargets.Json

def hexChar (n : Nat) : Char := if n < 10 then Char.ofNat (48 + n) else Char.ofNat (87 + n)

/-- How a character is written inside a string literal. -/
def escapeChar (c : Char) : List Char :=
  if c = '"' then ['\\', '"']
  else if c = '\\' then ['\\', '\\']
  else if c = '\x08' then ['\\', 'b']
  else if c = '\x0c' then ['\\', 'f']
  else if c = '\n' then ['\\', 'n']
  else if c = '\r' then ['\\', 'r']
  else if c = '\t' then ['\\', 't']
  else if c.toNat < 0x20 then
    ['\\', 'u', '0', '0', hexChar (c.toNat / 16), hexChar (c.toNat % 16)]
  else [c]

/-- A string literal.  The half of a surrogate pair is written for one that
    spells no text. -/
def quote : Option String → List Char
  | some s => '"' :: s.toList.flatMap escapeChar ++ ['"']
  | none => "\"\\ud800\"".toList

def newline (depth : Nat) : List Char := '\n' :: List.replicate (2 * depth) ' '

/-- What stands before an item: a comma unless it is the first. -/
def separator (first : Bool) : List Char := if first then [] else [',']

mutual

def lay (depth : Nat) : Json → List Char
  | .null => "null".toList
  | .bool true => "true".toList
  | .bool false => "false".toList
  | .number literal => literal
  | .string text => quote text
  | .array [] => ['[', ']']
  | .array (j :: js) => '[' :: layItems (depth + 1) true (j :: js) ++ newline depth ++ [']']
  | .object [] => ['\x7b', '\x7d']
  | .object (m :: ms) =>
    '\x7b' :: layMembers (depth + 1) true (m :: ms) ++ newline depth ++ ['\x7d']

def layItems (depth : Nat) (first : Bool) : List Json → List Char
  | [] => []
  | j :: js => separator first ++ newline depth ++ lay depth j ++ layItems depth false js

def layMembers (depth : Nat) (first : Bool) : List (Option String × Json) → List Char
  | [] => []
  | (name, j) :: ms =>
    separator first ++ newline depth ++ quote name ++ ':' :: ' ' :: lay depth j ++
      layMembers depth false ms

end

def pretty (j : Json) : String := String.ofList (lay 0 j)

end BuildTargets.Json
