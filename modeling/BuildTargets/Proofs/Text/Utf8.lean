/-
  BuildTargets/Proofs/Text/Utf8.lean
  ==================================
  **What is written as UTF-8 is read as it was.**

  The bytes of a character are its lead byte, which says how many are to follow and
  in which range the first of them has to be, and continuation bytes.  So they are
  one piece, whatever comes after them (`firstPiece_encodeChar`), and a text is read
  back from its bytes (`decodeLossy_encode`).

  A piece that is a character is made of the bytes of that character, too
  (`encodeChar_of_firstPiece`).  So strict reading gives a text for its bytes and for no
  others (`decode?_eq_some_iff`).

  The bytes also keep the order: of two texts the one that comes first in the order
  of characters comes first in the order of bytes (`precedes_iff`).
-/
import BuildTargets.Text.Utf8
import Mathlib.Data.List.TakeWhile
import Mathlib.Data.String.Basic

namespace BuildTargets.Text

/-! ### Pieces of several bytes -/

theorem isContinuation_iff {b : UInt8} :
    isContinuation b = true ↔ 0x80 ≤ b.toNat ∧ b.toNat ≤ 0xBF := by
  simp [isContinuation, UInt8.le_iff_toNat_le]

theorem continued_of_continuation {lo hi b : UInt8} {tail : List UInt8} (hlo : lo ≤ b)
    (hhi : b ≤ hi) (htail : ∀ b ∈ tail, isContinuation b = true) (rest : List UInt8) :
    continued (tail.length + 1) lo hi (b :: (tail ++ rest)) = tail.length + 1 := by
  have hwhile : tail.takeWhile isContinuation = tail := List.takeWhile_eq_self_iff.mpr htail
  simp [continued, hlo, hhi, hwhile, Nat.add_comm]

/-- A lead byte with the bytes that it asks for is one piece. -/
theorem firstPiece_of_leadByte {lead lo hi b : UInt8} (tail : List UInt8)
    (hhigh : 0x80 ≤ lead.toNat) (hlead : leadByte lead = some (tail.length + 1, lo, hi))
    (hlo : lo ≤ b) (hhi : b ≤ hi) (htail : ∀ b ∈ tail, isContinuation b = true)
    (rest : List UInt8) :
    firstPiece lead (b :: tail ++ rest) = (some (charOf lead (b :: tail)), tail.length + 1) := by
  have hnotAscii : ¬lead < 0x80 := by
    rw [UInt8.lt_iff_toNat_lt]
    exact Nat.not_lt.mpr hhigh
  unfold firstPiece
  rw [if_neg hnotAscii, hlead]
  simp [continued_of_continuation hlo hhi htail]

theorem leadByte_two {lead : UInt8} (h : 0xC2 ≤ lead.toNat) (h' : lead.toNat ≤ 0xDF) :
    leadByte lead = some (1, 0x80, 0xBF) := by
  simp [leadByte, UInt8.le_iff_toNat_le, h, h']

/-- Of three bytes the second is not free after `E0`, where the form would be
    overlong, and after `ED`, where surrogates would be. -/
theorem leadByte_three {lead b : UInt8} (h : 0xE0 ≤ lead.toNat) (h' : lead.toNat ≤ 0xEF)
    (hb : 0x80 ≤ b.toNat) (hb' : b.toNat ≤ 0xBF) (hlong : lead.toNat = 0xE0 → 0xA0 ≤ b.toNat)
    (hpair : lead.toNat = 0xED → b.toNat ≤ 0x9F) :
    ∃ lo hi, leadByte lead = some (2, lo, hi) ∧ lo ≤ b ∧ b ≤ hi := by
  simp only [leadByte, UInt8.le_iff_toNat_le, ← UInt8.toNat_inj, UInt8.reduceToNat,
    Bool.and_eq_true, decide_eq_true_eq]
  rw [if_neg (by omega)]
  split
  · next hE0 => exact ⟨_, _, rfl, hlong hE0, hb'⟩
  · split
    · next hED => exact ⟨_, _, rfl, hb, hpair hED⟩
    · rw [if_pos (by omega)]
      exact ⟨_, _, rfl, hb, hb'⟩

/-- Of four bytes the second is not free after `F0`, where the form would be
    overlong, and after `F4`, where it would be beyond the last character. -/
theorem leadByte_four {lead b : UInt8} (h : 0xF0 ≤ lead.toNat) (h' : lead.toNat ≤ 0xF4)
    (hb : 0x80 ≤ b.toNat) (hb' : b.toNat ≤ 0xBF) (hlong : lead.toNat = 0xF0 → 0x90 ≤ b.toNat)
    (hlast : lead.toNat = 0xF4 → b.toNat ≤ 0x8F) :
    ∃ lo hi, leadByte lead = some (3, lo, hi) ∧ lo ≤ b ∧ b ≤ hi := by
  simp only [leadByte, UInt8.le_iff_toNat_le, ← UInt8.toNat_inj, UInt8.reduceToNat,
    Bool.and_eq_true, decide_eq_true_eq]
  rw [if_neg (by omega), if_neg (by omega), if_neg (by omega), if_neg (by omega)]
  split
  · next hF0 => exact ⟨_, _, rfl, hlong hF0, hb'⟩
  · split
    · exact ⟨_, _, rfl, hb, hb'⟩
    · rw [if_pos (by omega)]
      exact ⟨_, _, rfl, hb, hlast (by omega)⟩

/-! ### Characters -/

theorem isValid_toNat (c : Char) :
    c.toNat < 0xD800 ∨ 0xDFFF < c.toNat ∧ c.toNat < 0x110000 := c.valid

theorem exists_byte {n : Nat} (h : n < 256) : ∃ b, UInt8.ofNat n = b ∧ b.toNat = n :=
  ⟨_, rfl, UInt8.toNat_ofNat_of_lt h⟩

variable {v : Nat} (rest : List UInt8)

theorem firstPiece_one (h : v ≤ 0x7F) :
    firstPiece (.ofNat v) rest = (some (Char.ofNat v), 0) := by
  obtain ⟨b, hb, hv⟩ := exists_byte (n := v) (by omega)
  have hascii : b < 0x80 := by
    rw [UInt8.lt_iff_toNat_lt, hv]
    exact Nat.lt_succ_of_le h
  rw [hb, firstPiece, if_pos hascii, hv]

theorem firstPiece_two (h : 0x7F < v) (h' : v ≤ 0x7FF) :
    firstPiece (.ofNat (v / 64 % 32 + 192)) (.ofNat (v % 64 + 128) :: rest) =
      (some (Char.ofNat v), 1) := by
  obtain ⟨lead, hlead, hn⟩ := exists_byte (n := v / 64 % 32 + 192) (by omega)
  obtain ⟨b, hb, hm⟩ := exists_byte (n := v % 64 + 128) (by omega)
  rw [hlead, hb]
  have hasks : leadByte lead = some (1, 0x80, 0xBF) := leadByte_two (by omega) (by omega)
  have hb' : isContinuation b = true := isContinuation_iff.mpr (by omega)
  simp only [isContinuation, Bool.and_eq_true, decide_eq_true_eq] at hb'
  have hpiece := firstPiece_of_leadByte [] (by omega) hasks hb'.1 hb'.2 (by simp) rest
  have hchar : charOf lead [b] = Char.ofNat v := by
    simp only [charOf, leadBits, List.foldl_cons, List.foldl_nil, List.length_cons,
      List.length_nil, Nat.pow_eq]
    congr 1
    omega
  rw [hchar] at hpiece
  exact hpiece

theorem firstPiece_three (h : 0x7FF < v) (h' : v ≤ 0xFFFF) (hvalid : v < 0xD800 ∨ 0xDFFF < v) :
    firstPiece (.ofNat (v / 4096 % 16 + 224))
        (.ofNat (v / 64 % 64 + 128) :: .ofNat (v % 64 + 128) :: rest) =
      (some (Char.ofNat v), 2) := by
  obtain ⟨lead, hlead, hn⟩ := exists_byte (n := v / 4096 % 16 + 224) (by omega)
  obtain ⟨b, hb, hm⟩ := exists_byte (n := v / 64 % 64 + 128) (by omega)
  obtain ⟨b', hb', hm'⟩ := exists_byte (n := v % 64 + 128) (by omega)
  rw [hlead, hb, hb']
  obtain ⟨lo, hi, hasks, hlo, hhi⟩ : ∃ lo hi, leadByte lead = some (2, lo, hi) ∧ lo ≤ b ∧ b ≤ hi :=
    leadByte_three (by omega) (by omega) (by omega) (by omega) (by omega) (by omega)
  have hpiece := firstPiece_of_leadByte [b'] (by omega) hasks hlo hhi
    (by simp [isContinuation_iff]; omega) rest
  have hchar : charOf lead [b, b'] = Char.ofNat v := by
    simp only [charOf, leadBits, List.foldl_cons, List.foldl_nil, List.length_cons,
      List.length_nil, Nat.pow_eq]
    congr 1
    omega
  rw [hchar] at hpiece
  exact hpiece

theorem firstPiece_four (h : 0xFFFF < v) (h' : v < 0x110000) :
    firstPiece (.ofNat (v / 262144 % 8 + 240)) (.ofNat (v / 4096 % 64 + 128) ::
        .ofNat (v / 64 % 64 + 128) :: .ofNat (v % 64 + 128) :: rest) =
      (some (Char.ofNat v), 3) := by
  obtain ⟨lead, hlead, hn⟩ := exists_byte (n := v / 262144 % 8 + 240) (by omega)
  obtain ⟨b, hb, hm⟩ := exists_byte (n := v / 4096 % 64 + 128) (by omega)
  obtain ⟨b', hb', hm'⟩ := exists_byte (n := v / 64 % 64 + 128) (by omega)
  obtain ⟨b'', hb'', hm''⟩ := exists_byte (n := v % 64 + 128) (by omega)
  rw [hlead, hb, hb', hb'']
  obtain ⟨lo, hi, hasks, hlo, hhi⟩ : ∃ lo hi, leadByte lead = some (3, lo, hi) ∧ lo ≤ b ∧ b ≤ hi :=
    leadByte_four (by omega) (by omega) (by omega) (by omega) (by omega) (by omega)
  have hpiece := firstPiece_of_leadByte [b', b''] (by omega) hasks hlo hhi
    (by simp [isContinuation_iff]; omega) rest
  have hchar : charOf lead [b, b', b''] = Char.ofNat v := by
    simp only [charOf, leadBits, List.foldl_cons, List.foldl_nil, List.length_cons,
      List.length_nil, Nat.pow_eq]
    congr 1
    omega
  rw [hchar] at hpiece
  exact hpiece

/-- The bytes of a character are one piece. -/
theorem firstPiece_encodeChar (c : Char) :
    ∃ lead tail, String.utf8EncodeChar c = lead :: tail ∧
      ∀ rest, firstPiece lead (tail ++ rest) = (some c, tail.length) := by
  have hvalid := isValid_toNat c
  have hself : some c = some (Char.ofNat c.toNat) := by rw [Char.ofNat_toNat]
  have hval : c.val.toNat = c.toNat := rfl
  rw [hself]
  simp only [String.utf8EncodeChar, hval]
  split
  · next h => exact ⟨_, _, rfl, fun rest => firstPiece_one rest h⟩
  · split
    · next h h' => exact ⟨_, _, rfl, fun rest => firstPiece_two rest (by omega) h'⟩
    · split
      · next h h' => exact ⟨_, _, rfl, fun rest => firstPiece_three rest (by omega) h' (by omega)⟩
      · next h => exact ⟨_, _, rfl, fun rest => firstPiece_four rest (by omega) (by omega)⟩

/-! ### Texts -/

theorem piecesAfter_append (skipped rest : List UInt8) :
    piecesAfter skipped.length (skipped ++ rest) = pieces rest := by
  induction skipped with
  | nil => rfl
  | cons b skipped ih => exact ih

/-- The pieces of the bytes of a text are its characters. -/
theorem pieces_flatMap_encodeChar (cs : List Char) :
    pieces (cs.flatMap String.utf8EncodeChar) = cs.map some := by
  induction cs with
  | nil => rfl
  | cons c cs ih =>
    obtain ⟨lead, tail, hbytes, hpiece⟩ := firstPiece_encodeChar c
    rw [List.flatMap_cons, hbytes, List.cons_append, pieces, piecesAfter, hpiece, List.map_cons,
      piecesAfter_append, ih]

/-- A text is read back from its bytes. -/
@[simp] theorem decodeLossy_encode (s : String) : decodeLossy (encode s) = s := by
  rw [decodeLossy, encode, pieces_flatMap_encodeChar, List.map_map]
  exact (congrArg String.ofList (List.map_id s.toList)).trans String.ofList_toList

/-! ### The bytes of what is read -/

theorem ofNat_eq_of_toNat {b : UInt8} {n : Nat} (h : b.toNat = n) : UInt8.ofNat n = b := by
  rw [← h, UInt8.ofNat_toNat]

/-- The number of a character that has that number. -/
theorem toNat_ofNat {v : Nat} (h : v < 0xD800 ∨ 0xDFFF < v ∧ v < 0x110000) :
    (Char.ofNat v).toNat = v := by
  have hvalid : v.isValidChar := h
  unfold Char.ofNat
  rw [dif_pos hvalid]
  rfl

/-- A lead byte and the byte after it are in the ranges of a character. -/
theorem leadByte_eq_some {lead lo hi b : UInt8} {n : Nat} (h : leadByte lead = some (n, lo, hi))
    (hlo : lo ≤ b) (hhi : b ≤ hi) : (0x80 ≤ b.toNat ∧ b.toNat ≤ 0xBF) ∧
      (n = 1 ∧ 0xC2 ≤ lead.toNat ∧ lead.toNat ≤ 0xDF ∨
      n = 2 ∧ 0xE0 ≤ lead.toNat ∧ lead.toNat ≤ 0xEF ∧ (lead.toNat = 0xE0 → 0xA0 ≤ b.toNat) ∧
        (lead.toNat = 0xED → b.toNat ≤ 0x9F) ∨
      n = 3 ∧ 0xF0 ≤ lead.toNat ∧ lead.toNat ≤ 0xF4 ∧ (lead.toNat = 0xF0 → 0x90 ≤ b.toNat) ∧
        (lead.toNat = 0xF4 → b.toNat ≤ 0x8F)) := by
  simp only [leadByte, UInt8.le_iff_toNat_le, ← UInt8.toNat_inj, UInt8.reduceToNat,
    Bool.and_eq_true, decide_eq_true_eq] at h hlo hhi
  split_ifs at h <;> cases h <;> simp only [UInt8.reduceToNat] at hlo hhi <;> omega

theorem leadByte_ne_zero {lead lo hi : UInt8} {n : Nat} (h : leadByte lead = some (n, lo, hi)) :
    n ≠ 0 := by
  unfold leadByte at h
  split_ifs at h <;> cases h <;> decide

/-- What continues a lead byte as far as it asks for. -/
theorem exists_of_continued_eq {n : Nat} {lo hi : UInt8} {bytes : List UInt8} (hn : n ≠ 0)
    (h : continued n lo hi bytes = n) :
    ∃ b tail rest, bytes = b :: (tail ++ rest) ∧ lo ≤ b ∧ b ≤ hi ∧ n = tail.length + 1 ∧
      ∀ b ∈ tail, isContinuation b = true := by
  cases bytes with
  | nil => exact absurd h.symm hn
  | cons b bytes =>
    rw [continued] at h
    split_ifs at h with hb
    · simp only [Bool.and_eq_true, decide_eq_true_eq] at hb
      have hlen : ((bytes.take (n - 1)).takeWhile isContinuation).length = n - 1 := by omega
      have hle : ((bytes.take (n - 1)).takeWhile isContinuation).length ≤
          (bytes.take (n - 1)).length := (List.takeWhile_prefix _).length_le
      have hall : (bytes.take (n - 1)).takeWhile isContinuation = bytes.take (n - 1) :=
        (List.takeWhile_prefix _).eq_of_length_le (by rw [hlen]; exact List.length_take_le ..)
      refine ⟨b, bytes.take (n - 1), bytes.drop (n - 1), ?_, hb.1.2, hb.2, ?_, ?_⟩
      · rw [List.take_append_drop]
      · rw [← hall, hlen]
        omega
      · exact List.takeWhile_eq_self_iff.mp hall
    · exact absurd h.symm hn

variable {lead b b' b'' : UInt8}

theorem encodeChar_one (h : lead.toNat ≤ 0x7F) :
    String.utf8EncodeChar (Char.ofNat lead.toNat) = [lead] := by
  have hchar : (Char.ofNat lead.toNat).val.toNat = lead.toNat := toNat_ofNat (by omega)
  simp only [String.utf8EncodeChar, hchar]
  rw [if_pos h, UInt8.ofNat_toNat]

theorem encodeChar_two (h : 0xC2 ≤ lead.toNat ∧ lead.toNat ≤ 0xDF)
    (hb : 0x80 ≤ b.toNat ∧ b.toNat ≤ 0xBF) :
    String.utf8EncodeChar (charOf lead [b]) = [lead, b] := by
  have hchar : (charOf lead [b]).val.toNat = lead.toNat % 32 * 64 + b.toNat % 64 :=
    toNat_ofNat (by simp [leadBits]; omega)
  simp only [String.utf8EncodeChar, hchar]
  rw [if_neg (by omega), if_pos (by omega), ofNat_eq_of_toNat (b := lead) (by omega),
    ofNat_eq_of_toNat (b := b) (by omega)]

theorem encodeChar_three (h : 0xE0 ≤ lead.toNat ∧ lead.toNat ≤ 0xEF)
    (hlong : lead.toNat = 0xE0 → 0xA0 ≤ b.toNat) (hpair : lead.toNat = 0xED → b.toNat ≤ 0x9F)
    (hb : 0x80 ≤ b.toNat ∧ b.toNat ≤ 0xBF) (hb' : 0x80 ≤ b'.toNat ∧ b'.toNat ≤ 0xBF) :
    String.utf8EncodeChar (charOf lead [b, b']) = [lead, b, b'] := by
  have hchar : (charOf lead [b, b']).val.toNat =
      (lead.toNat % 16 * 64 + b.toNat % 64) * 64 + b'.toNat % 64 :=
    toNat_ofNat (by simp [leadBits]; omega)
  simp only [String.utf8EncodeChar, hchar]
  rw [if_neg (by omega), if_neg (by omega), if_pos (by omega),
    ofNat_eq_of_toNat (b := lead) (by omega), ofNat_eq_of_toNat (b := b) (by omega),
    ofNat_eq_of_toNat (b := b') (by omega)]

theorem encodeChar_four (h : 0xF0 ≤ lead.toNat ∧ lead.toNat ≤ 0xF4)
    (hlong : lead.toNat = 0xF0 → 0x90 ≤ b.toNat) (hlast : lead.toNat = 0xF4 → b.toNat ≤ 0x8F)
    (hb : 0x80 ≤ b.toNat ∧ b.toNat ≤ 0xBF) (hb' : 0x80 ≤ b'.toNat ∧ b'.toNat ≤ 0xBF)
    (hb'' : 0x80 ≤ b''.toNat ∧ b''.toNat ≤ 0xBF) :
    String.utf8EncodeChar (charOf lead [b, b', b'']) = [lead, b, b', b''] := by
  have hchar : (charOf lead [b, b', b'']).val.toNat =
      ((lead.toNat % 8 * 64 + b.toNat % 64) * 64 + b'.toNat % 64) * 64 + b''.toNat % 64 :=
    toNat_ofNat (by simp [leadBits]; omega)
  simp only [String.utf8EncodeChar, hchar]
  rw [if_neg (by omega), if_neg (by omega), if_neg (by omega),
    ofNat_eq_of_toNat (b := lead) (by omega), ofNat_eq_of_toNat (b := b) (by omega),
    ofNat_eq_of_toNat (b := b') (by omega), ofNat_eq_of_toNat (b := b'') (by omega)]

/-- A character that is cut off behind its lead byte, and what is left. -/
theorem encodeChar_of_continued {n : Nat} {lo hi : UInt8} {bytes : List UInt8}
    (hlead : leadByte lead = some (n, lo, hi)) (hcontinued : continued n lo hi bytes = n) :
    String.utf8EncodeChar (charOf lead (bytes.take n)) ++ bytes.drop n = lead :: bytes := by
  obtain ⟨b, tail, rest, rfl, hlo, hhi, rfl, htail⟩ :=
    exists_of_continued_eq (leadByte_ne_zero hlead) hcontinued
  have htake : (b :: (tail ++ rest)).take (tail.length + 1) = b :: tail := by simp
  have hdrop : (b :: (tail ++ rest)).drop (tail.length + 1) = rest := by simp
  rw [htake, hdrop]
  simp only [isContinuation_iff] at htail
  obtain ⟨hb, ⟨hn, h, h'⟩ | ⟨hn, h, h', hlong, hpair⟩ | ⟨hn, h, h', hlong, hlast⟩⟩ :=
    leadByte_eq_some hlead hlo hhi
  · obtain rfl := List.length_eq_zero_iff.mp (Nat.succ.inj hn)
    rw [encodeChar_two ⟨h, h'⟩ hb]
    rfl
  · obtain ⟨b', rfl⟩ := List.length_eq_one_iff.mp (Nat.succ.inj hn)
    rw [encodeChar_three ⟨h, h'⟩ hlong hpair hb (htail b' (by simp))]
    rfl
  · obtain ⟨b', b'', rfl⟩ := List.length_eq_two.mp (Nat.succ.inj hn)
    rw [encodeChar_four ⟨h, h'⟩ hlong hlast hb (htail b' (by simp)) (htail b'' (by simp))]
    rfl

/-- A piece that is a character is made of the bytes of that character. -/
theorem encodeChar_of_firstPiece {bytes : List UInt8} {c : Char} {n : Nat}
    (h : firstPiece lead bytes = (some c, n)) :
    String.utf8EncodeChar c ++ bytes.drop n = lead :: bytes := by
  unfold firstPiece at h
  split at h
  · next hascii =>
    cases h
    rw [encodeChar_one (Nat.le_of_lt_succ (UInt8.lt_iff_toNat_lt.mp hascii))]
    rfl
  · split at h
    · cases h
    · next hlead =>
      dsimp only at h
      split at h
      · next hcontinued =>
        cases h
        exact encodeChar_of_continued hlead hcontinued
      · cases h

theorem piecesAfter_eq (skip : Nat) (bytes : List UInt8) :
    piecesAfter skip bytes = pieces (bytes.drop skip) := by
  induction bytes generalizing skip with
  | nil => simp [pieces, piecesAfter]
  | cons b bytes ih =>
    cases skip with
    | zero => rfl
    | succ skip => exact ih skip

theorem wholeText_cons {p : Option Char} {ps : List (Option Char)} {cs : List Char}
    (h : wholeText (p :: ps) = some cs) :
    ∃ c rest, p = some c ∧ wholeText ps = some rest ∧ cs = c :: rest := by
  cases p with
  | none => cases h
  | some c =>
    obtain ⟨rest, hrest, rfl⟩ := Option.map_eq_some_iff.mp h
    exact ⟨c, rest, rfl, hrest, rfl⟩

theorem wholeText_map_some (cs : List Char) : wholeText (cs.map some) = some cs := by
  induction cs with
  | nil => rfl
  | cons c cs ih => rw [List.map_cons, wholeText, ih, Option.map_some]

/-- If all pieces are characters, their bytes are all that there is. -/
theorem flatMap_encodeChar_of_wholeText {cs : List Char} {bytes : List UInt8}
    (h : wholeText (pieces bytes) = some cs) : cs.flatMap String.utf8EncodeChar = bytes := by
  induction cs generalizing bytes with
  | nil =>
    cases bytes with
    | nil => rfl
    | cons b bytes =>
      obtain ⟨c, rest, -, -, hnil⟩ := wholeText_cons h
      cases hnil
  | cons c cs ih =>
    cases bytes with
    | nil => cases h
    | cons b bytes =>
      obtain ⟨c', rest, hpiece, hrest, heq⟩ := wholeText_cons h
      obtain ⟨rfl, rfl⟩ := List.cons.inj heq
      rw [piecesAfter_eq] at hrest
      have hbytes :=
        encodeChar_of_firstPiece (Prod.ext hpiece rfl : firstPiece b bytes = (some c, _))
      rw [List.flatMap_cons, ih hrest, hbytes]

/-- A text can be read strictly from its bytes, and from nothing else. -/
theorem decode?_eq_some_iff {bytes : List UInt8} {s : String} :
    decode? bytes = some s ↔ encode s = bytes := by
  constructor
  · intro h
    obtain ⟨cs, hcs, rfl⟩ := Option.map_eq_some_iff.mp h
    rw [encode, String.toList_ofList]
    exact flatMap_encodeChar_of_wholeText hcs
  · rintro rfl
    rw [decode?, encode, pieces_flatMap_encodeChar, wholeText_map_some, Option.map_some,
      String.ofList_toList]

/-! ### The order of bytes -/

theorem byte_cons_lt_iff {m n : Nat} (hm : m < 256) (hn : n < 256) {s t : List UInt8} :
    UInt8.ofNat m :: s < UInt8.ofNat n :: t ↔ m < n ∨ m = n ∧ s < t := by
  obtain ⟨b, hb, rfl⟩ := exists_byte hm
  obtain ⟨b', hb', rfl⟩ := exists_byte hn
  rw [hb, hb', List.cons_lt_cons_iff, UInt8.lt_iff_toNat_lt, UInt8.toNat_inj]

/-- The bytes of a character come before those of a later one, whatever follows. -/
theorem encodeChar_lt {c d : Char} (h : c < d) (bytes bytes' : List UInt8) :
    String.utf8EncodeChar c ++ bytes < String.utf8EncodeChar d ++ bytes' := by
  have hlt : c.toNat < d.toNat := h
  have hval (c : Char) : c.val.toNat = c.toNat := rfl
  have hdigits (c : Char) : c.toNat / 64 / 64 = c.toNat / 4096 ∧
      c.toNat / 4096 / 64 = c.toNat / 262144 ∧ c.toNat / 262144 % 8 = c.toNat / 262144 := by
    have hvalid := isValid_toNat c
    omega
  have hc := hdigits c
  have hd := hdigits d
  simp only [String.utf8EncodeChar, hval]
  -- of two lengths the longer one has the greater lead byte; of one length the
  -- first difference is that of the numbers
  split_ifs <;> first
    | omega
    | simp (disch := omega) only [List.cons_append, List.nil_append, byte_cons_lt_iff]
      omega

/-- The first text comes before the second one in the order of their bytes. -/
def Precedes (s t : String) : Prop := encode s < encode t

theorem precedes_of_lt {s t : String} (h : s < t) : Precedes s t := by
  have hlex : List.Lex (· < ·) s.toList t.toList := String.lt_iff_toList_lt.mp h
  unfold Precedes encode
  generalize s.toList = cs, t.toList = ds at hlex ⊢
  induction hlex with
  | @nil d ds =>
    obtain ⟨lead, tail, hbytes, -⟩ := firstPiece_encodeChar d
    rw [List.flatMap_cons, hbytes]
    exact List.Lex.nil
  | rel hcd => exact encodeChar_lt hcd _ _
  | cons hrest ih => exact List.Lex.append_left _ ih _

/-- The order of bytes is the order of characters. -/
theorem precedes_iff {s t : String} : Precedes s t ↔ s < t := by
  constructor
  · intro h
    rcases lt_trichotomy s t with hlt | rfl | hgt
    · exact hlt
    · exact absurd h (List.lt_irrefl _)
    · exact absurd h (List.lt_asymm (precedes_of_lt hgt))
  · exact precedes_of_lt

end BuildTargets.Text
