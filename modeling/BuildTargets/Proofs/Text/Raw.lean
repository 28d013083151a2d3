/-
  BuildTargets/Proofs/Text/Raw.lean
  =================================
  **What the system gets for a text, and what comes back.**

  A text comes back from its bytes (`shown_ofText`), so different texts are different
  for the system.  A byte of ASCII stands for that character and is part of no other
  one (`mem_encodeChar_iff`).  So a text is cut at its slashes as its bytes are
  (`fields_ofText`), and begins and ends as they do.

  What is shown of a name is the name itself if no U+FFFD is in it
  (`ofText_shown`).
-/
import BuildTargets.Proofs.Text.Utf8
import BuildTargets.Text.Raw
import Mathlib.Data.List.Basic

namespace BuildTargets

namespace Text

/-! ### Bytes of ASCII -/

variable {b : UInt8} {c : Char} {s t : String}

theorem encodeChar_of_ascii (h : c.toNat < 0x80) :
    String.utf8EncodeChar c = [UInt8.ofNat c.toNat] := by
  have hval : c.val.toNat = c.toNat := rfl
  simp only [String.utf8EncodeChar, hval]
  rw [if_pos (by omega)]

theorem le_of_mem_encodeChar (h : 0x80 ≤ c.toNat) (hb : b ∈ String.utf8EncodeChar c) :
    0x80 ≤ b.toNat := by
  have hvalid := isValid_toNat c
  have hval : c.val.toNat = c.toNat := rfl
  simp only [String.utf8EncodeChar, hval] at hb
  rw [if_neg (by omega)] at hb
  split_ifs at hb <;> simp only [List.mem_cons, List.not_mem_nil, or_false] at hb <;>
    rcases hb with rfl | rfl | rfl | rfl <;> simp <;> omega

/-- A byte of ASCII is the one byte of that character. -/
theorem mem_encodeChar_iff (hb : b.toNat < 0x80) :
    b ∈ String.utf8EncodeChar c ↔ c.toNat = b.toNat := by
  rcases Nat.lt_or_ge c.toNat 0x80 with hc | hc
  · obtain ⟨b', hb', hn⟩ := exists_byte (n := c.toNat) (by omega)
    rw [encodeChar_of_ascii hc, hb', List.mem_singleton, ← UInt8.toNat_inj, hn]
    exact eq_comm
  · constructor
    · intro hmem
      have hle := le_of_mem_encodeChar hc hmem
      omega
    · intro heq
      omega

theorem mem_encode_iff (hb : b.toNat < 0x80) :
    b ∈ encode s ↔ Char.ofNat b.toNat ∈ s.toList := by
  have htoNat : (Char.ofNat b.toNat).toNat = b.toNat := toNat_ofNat (by omega)
  simp only [encode, List.mem_flatMap, mem_encodeChar_iff hb]
  constructor
  · rintro ⟨c, hc, heq⟩
    rwa [← heq, Char.ofNat_toNat]
  · exact fun hmem => ⟨_, hmem, htoNat⟩

/-! ### Bytes of texts -/

theorem encode_append (s t : String) : encode (s ++ t) = encode s ++ encode t := by
  rw [encode, String.toList_append, List.flatMap_append]
  rfl

theorem encode_inj : encode s = encode t ↔ s = t := by
  constructor
  · intro h
    rw [← decodeLossy_encode s, h, decodeLossy_encode]
  · rintro rfl
    rfl

theorem encode_eq_nil_iff : encode s = [] ↔ s = "" := encode_inj (t := "")

theorem length_encode (s : String) : (encode s).length = s.utf8ByteSize := by
  have hchars (cs : List Char) :
      (cs.flatMap String.utf8EncodeChar).length = (String.ofList cs).utf8ByteSize := by
    induction cs with
    | nil => rfl
    | cons c cs ih =>
      have happend : String.ofList (c :: cs) = String.singleton c ++ String.ofList cs := by
        rw [← String.toList_inj]
        simp
      rw [List.flatMap_cons, List.length_append, ih, String.length_utf8EncodeChar, happend,
        String.utf8ByteSize_append, String.utf8ByteSize_singleton]
  rw [encode, hchars, String.ofList_toList]

/-! ### Cutting -/

/-- What comes before the first separator goes with the first field. -/
theorem split_append_of_notMem {α : Type} [DecidableEq α] {sep : α} {front : List α}
    (h : sep ∉ front) {field : List α} {fields : List (List α)} {cs : List α}
    (hcs : split sep cs = field :: fields) :
    split sep (front ++ cs) = (front ++ field) :: fields := by
  induction front with
  | nil => exact hcs
  | cons c front ih =>
    rw [List.mem_cons, not_or] at h
    obtain ⟨g, gs, hg, hcut⟩ := split_cons_ne (Ne.symm h.1) (front ++ cs)
    rw [ih h.2] at hg
    obtain ⟨rfl, rfl⟩ := List.cons.inj hg
    exact hcut

/-- The bytes of a text are cut at the slashes of the text. -/
theorem split_flatMap_encodeChar (cs : List Char) :
    split RawText.slash (cs.flatMap String.utf8EncodeChar) =
      (split '/' cs).map (·.flatMap String.utf8EncodeChar) := by
  induction cs with
  | nil => rfl
  | cons c cs ih =>
    by_cases hc : c = '/'
    · subst hc
      have hslash : String.utf8EncodeChar '/' = [RawText.slash] := by decide
      rw [List.flatMap_cons, hslash, List.singleton_append, split_cons_sep, split_cons_sep, ih]
      rfl
    · have hslash : RawText.slash ∉ String.utf8EncodeChar c := by
        rw [mem_encodeChar_iff (by decide)]
        exact fun heq => hc (Char.toNat_inj.mp heq)
      obtain ⟨field, fields, hcs, hcut⟩ := split_cons_ne hc cs
      rw [hcs, List.map_cons] at ih
      rw [List.flatMap_cons, hcut, split_append_of_notMem hslash ih]
      rfl

end Text

namespace RawText

variable {s t dir entry path : String}

/-! ### Texts and what the system gets -/

/-- A text comes back as it was. -/
@[simp] theorem shown_ofText (s : String) : (ofText s).shown = s := by
  rw [shown, bytes_ofText, Text.decodeLossy_encode]

theorem ofText_inj : ofText s = ofText t ↔ s = t := by
  rw [ofText, ofText, mk.injEq, Text.encode_inj]

theorem bytes_ofText_eq_nil_iff : (ofText s).bytes = [] ↔ s = "" := by
  rw [bytes_ofText, Text.encode_eq_nil_iff]

@[simp] theorem byteSize_ofText (s : String) : (ofText s).byteSize = s.utf8ByteSize := by
  rw [byteSize, bytes_ofText, Text.length_encode]

theorem slash_mem_ofText_iff : slash ∈ (ofText s).bytes ↔ '/' ∈ s.toList := by
  rw [bytes_ofText]
  exact Text.mem_encode_iff (by decide)

theorem nul_mem_ofText_iff : 0 ∈ (ofText s).bytes ↔ '\x00' ∈ s.toList := by
  rw [bytes_ofText]
  exact Text.mem_encode_iff (by decide)

theorem ofText_entry (dir entry : String) :
    ofText (dir ++ "/" ++ entry) = (ofText dir).child (ofText entry) := by
  have hslash : Text.encode "/" = [slash] := by decide
  rw [child, ofText, Text.encode_append, Text.encode_append, hslash, List.append_assoc,
    bytes_ofText, bytes_ofText]
  rfl

theorem fields_ofText (path : String) :
    (ofText path).fields =
      (Text.split '/' path.toList).map fun field => ofText (String.ofList field) := by
  rw [fields, bytes_ofText, Text.encode, Text.split_flatMap_encodeChar, List.map_map]
  simp [Function.comp_def, ofText, Text.encode]

theorem encodeChar_ne_nil (c : Char) : String.utf8EncodeChar c ≠ [] := by
  obtain ⟨lead, tail, hbytes, -⟩ := Text.firstPiece_encodeChar c
  rw [hbytes]
  exact List.cons_ne_nil _ _

/-- A text begins with a slash as its bytes do. -/
theorem head?_ofText (path : String) :
    (ofText path).bytes.head? = some slash ↔ path.toList.head? = some '/' := by
  rw [bytes_ofText, Text.encode]
  cases path.toList with
  | nil => simp
  | cons c cs =>
    rw [List.flatMap_cons, List.head?_append_of_ne_nil _ (encodeChar_ne_nil c), List.head?_cons,
      Option.some.injEq]
    constructor
    · exact fun h => Char.toNat_inj.mp ((Text.mem_encodeChar_iff (by decide)).mp
        (List.mem_of_mem_head? h))
    · rintro rfl
      decide

theorem getLast?_ofText (path : String) :
    (ofText path).bytes.getLast? = some slash ↔ path.toList.getLast? = some '/' := by
  rw [bytes_ofText, Text.encode]
  rcases List.eq_nil_or_concat path.toList with hnil | ⟨front, c, hfront⟩
  · simp [hnil]
  · rw [hfront, List.concat_eq_append, List.flatMap_append, List.flatMap_singleton,
      List.getLast?_append_of_ne_nil _ (encodeChar_ne_nil c), List.getLast?_concat,
      Option.some.injEq]
    constructor
    · exact fun h => Char.toNat_inj.mp ((Text.mem_encodeChar_iff (by decide)).mp
        (List.mem_of_getLast? h))
    · rintro rfl
      decide

/-! ### What is shown -/

/-- A name that is shown without U+FFFD is the text that is shown. -/
theorem ofText_shown {name : RawText} (h : Text.replacement ∉ name.shown.toList) :
    ofText name.shown = name := by
  have hwhole {ps : List (Option Char)} (hps : Text.replacement ∉ ps.map (·.getD Text.replacement)) :
      Text.wholeText ps = some (ps.map (·.getD Text.replacement)) := by
    induction ps with
    | nil => rfl
    | cons p ps ih =>
      rw [List.map_cons, List.mem_cons, not_or] at hps
      cases p with
      | none => exact absurd rfl hps.1
      | some c => rw [Text.wholeText, ih hps.2]; rfl
  rw [shown, Text.decodeLossy, String.toList_ofList] at h
  have hdecode : Text.decode? name.bytes = some name.shown := by
    rw [Text.decode?, hwhole h, Option.map_some, shown, Text.decodeLossy]
  rw [ofText, Text.decode?_eq_some_iff.mp hdecode]

/-- A character that is shown, and is not put in, is there. -/
theorem mem_bytes_of_mem_shown {name : RawText} {c : Char} (hc : c ∈ name.shown.toList)
    (hne : c ≠ Text.replacement) {b : UInt8} (hb : b ∈ String.utf8EncodeChar c) :
    b ∈ name.bytes := by
  have hpieces {skip : Nat} {bytes : List UInt8} (h : some c ∈ Text.piecesAfter skip bytes) :
      b ∈ bytes := by
    induction bytes generalizing skip with
    | nil => cases h
    | cons b' bytes ih =>
      cases skip with
      | succ skip => exact List.mem_cons_of_mem _ (ih h)
      | zero =>
        rcases List.mem_cons.mp h with hfirst | hrest
        · have hbytes := Text.encodeChar_of_firstPiece
            (Prod.ext hfirst.symm rfl : Text.firstPiece b' bytes = (some c, _))
          rw [← hbytes]
          exact List.mem_append_left _ hb
        · exact List.mem_cons_of_mem _ (ih hrest)
  rw [shown, Text.decodeLossy, String.toList_ofList] at hc
  obtain ⟨piece, hpiece, rfl⟩ := List.mem_map.mp hc
  cases piece with
  | none => exact absurd rfl hne
  | some c => exact hpieces hpiece

theorem nul_notMem_shown {name : RawText} (h : 0 ∉ name.bytes) : '\x00' ∉ name.shown.toList :=
  fun hmem => h (mem_bytes_of_mem_shown hmem (by decide) (by decide))

end RawText

end BuildTargets
