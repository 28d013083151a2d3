/-
  BuildTargets/Text/Utf8.lean
  ===========================
  **Reading bytes as UTF-8: strictly, and with replacement characters.**

  Files hold arbitrary bytes, and so does what the client prints.  `pieces`
  cuts a byte sequence into characters and ill-formed stretches, each of them
  the longest that could still have begun a character.  Strict reading
  (`decode?`) accepts a sequence without ill-formed stretches; lossy reading
  (`decodeLossy`) puts U+FFFD in the place of each.  Both are views of the same
  pieces, so they agree wherever the strict one gives an answer
  (`decodeLossy_of_decode?`).
-/

namespace BuildTargets.Text

/-! ### Sequences of one character -/

/-- Whether a byte may stand after the lead byte of a longer sequence. -/
def isContinuation (b : UInt8) : Bool := 0x80 ≤ b && b ≤ 0xBF

/-- The number of bytes that have to follow a lead byte, and the range of the
    first of them: overlong forms, surrogates and code points above U+10FFFF
    are cut off there. -/
def leadByte (b : UInt8) : Option (Nat × UInt8 × UInt8) :=
  if 0xC2 ≤ b && b ≤ 0xDF then some (1, 0x80, 0xBF)
  else if b = 0xE0 then some (2, 0xA0, 0xBF)
  else if b = 0xED then some (2, 0x80, 0x9F)
  else if 0xE1 ≤ b && b ≤ 0xEF then some (2, 0x80, 0xBF)
  else if b = 0xF0 then some (3, 0x90, 0xBF)
  else if 0xF1 ≤ b && b ≤ 0xF3 then some (3, 0x80, 0xBF)
  else if b = 0xF4 then some (3, 0x80, 0x8F)
  else none

/-- The payload bits of a lead byte with `n` bytes to follow. -/
def leadBits (n : Nat) (b : UInt8) : Nat := b.toNat % Nat.pow 2 (6 - n)

/-- The character of a lead byte and its continuation bytes. -/
def charOf (lead : UInt8) (tail : List UInt8) : Char :=
  Char.ofNat (tail.foldl (fun acc b => acc * 64 + b.toNat % 64) (leadBits tail.length lead))

/-- How many bytes at the head of `bytes` continue the sequence of a lead byte
    that needs `n` more, the first of them between `lo` and `hi`. -/
def continued (n : Nat) (lo hi : UInt8) : List UInt8 → Nat
  | [] => 0
  | b :: bytes =>
    if n ≠ 0 && lo ≤ b && b ≤ hi then 1 + ((bytes.take (n - 1)).takeWhile isContinuation).length
    else 0

/-! ### Pieces -/

/-- A character, or nothing for an ill-formed stretch, and the number of bytes
    it takes after the first. -/
def firstPiece (b : UInt8) (bytes : List UInt8) : Option Char × Nat :=
  if b < 0x80 then (some (Char.ofNat b.toNat), 0)
  else match leadByte b with
    | none => (none, 0)
    | some (n, lo, hi) =>
      let k := continued n lo hi bytes
      if k = n then (some (charOf b (bytes.take n)), n) else (none, k)

/-- The pieces of a byte sequence, in order.  `skip` bytes at its head belong
    to a piece already given. -/
def piecesAfter : (skip : Nat) → List UInt8 → List (Option Char)
  | _, [] => []
  | 0, b :: bytes =>
    let piece := firstPiece b bytes
    piece.1 :: piecesAfter piece.2 bytes
  | skip + 1, _ :: bytes => piecesAfter skip bytes

/-- The characters of a byte sequence, with nothing for each ill-formed
    stretch. -/
def pieces (bytes : List UInt8) : List (Option Char) := piecesAfter 0 bytes

/-! ### Texts -/

/-- The text of a sequence of pieces, if all of them are characters. -/
def wholeText : List (Option Char) → Option (List Char)
  | [] => some []
  | none :: _ => none
  | some c :: rest => (wholeText rest).map (c :: ·)

/-- The text that a byte sequence spells in UTF-8, if it spells one. -/
def decode? (bytes : List UInt8) : Option String := (wholeText (pieces bytes)).map String.ofList

/-- What stands in a lossy reading for an ill-formed stretch. -/
def replacement : Char := Char.ofNat 0xFFFD

/-- The text of a byte sequence with U+FFFD for each ill-formed stretch. -/
def decodeLossy (bytes : List UInt8) : String :=
  String.ofList ((pieces bytes).map (·.getD replacement))

def encode (s : String) : List UInt8 := s.toList.flatMap String.utf8EncodeChar

theorem map_getD_of_wholeText {ps : List (Option Char)} {cs : List Char} (d : Char)
    (h : wholeText ps = some cs) : ps.map (·.getD d) = cs := by
  induction ps generalizing cs with
  | nil => simp [wholeText] at h; simp [← h]
  | cons p ps ih =>
    cases p with
    | none => simp [wholeText] at h
    | some c =>
      simp only [wholeText, Option.map_eq_some_iff] at h
      obtain ⟨ds, hds, rfl⟩ := h
      simp [ih hds]

/-- Where strict reading gives a text, lossy reading gives the same. -/
theorem decodeLossy_of_decode? {bytes : List UInt8} {s : String} (h : decode? bytes = some s) :
    decodeLossy bytes = s := by
  simp only [decode?, Option.map_eq_some_iff] at h
  obtain ⟨cs, hcs, rfl⟩ := h
  rw [decodeLossy, map_getD_of_wholeText replacement hcs]

end BuildTargets.Text
