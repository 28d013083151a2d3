/-
  BuildTargets/Proofs/Json/Grammar.lean
  =====================================
  **The grammar of JSON, and that the reader takes all of it.**

  `Spells` says which texts spell a value, by the rules of the grammar: any white
  space between the tokens, any of the ways to write a character inside a string,
  members in the order written.  The rules do not mention the reader.

  The reader works one character at a time and does not know a rule by name.  What it
  does over the text of a phrase is therefore stated for every stack that it may
  have at the time (`Phrase.Reads`), and proved rule by rule (`Spells.reads`).  A
  number has no end of its own: it is over when the next token comes, so a value that
  has been read may still be a number in the making (`Ends`).
-/
import BuildTargets.Json.Reader
import Mathlib.Data.List.Induction

namespace BuildTargets.Json

/-! ### Tokens -/

/-- White space. -/
def Blank (cs : List Char) : Prop := ∀ c ∈ cs, c = ' ' ∨ c = '\n' ∨ c = '\r' ∨ c = '\t'

/-- The letter after a backslash, and the character that both stand for. -/
inductive ShortEscape : Char → Char → Prop where
  | quote : ShortEscape '"' '"'
  | backslash : ShortEscape '\\' '\\'
  | slash : ShortEscape '/' '/'
  | backspace : ShortEscape 'b' '\x08'
  | formFeed : ShortEscape 'f' '\x0c'
  | lineFeed : ShortEscape 'n' '\n'
  | carriageReturn : ShortEscape 'r' '\r'
  | tab : ShortEscape 't' '\t'

/-- A hexadecimal digit of either case, and its value. -/
def HexDigit (c : Char) (n : Nat) : Prop :=
  "0123456789abcdef".toList[n]? = some c ∨ "0123456789ABCDEF".toList[n]? = some c

/-- What a piece of a string literal stands for: a character, or a UTF-16 code unit. -/
abbrev Glyph := Char ⊕ Nat

/-- One character of a string literal, as it is written. -/
inductive Piece : List Char → Glyph → Prop where
  | plain {c : Char} (hquote : c ≠ '"') (hbackslash : c ≠ '\\') (hcontrol : 0x20 ≤ c.toNat) :
      Piece [c] (.inl c)
  | short {letter c : Char} (h : ShortEscape letter c) : Piece ['\\', letter] (.inl c)
  | unit {a b c d : Char} {i j k l : Nat} (ha : HexDigit a i) (hb : HexDigit b j)
      (hc : HexDigit c k) (hd : HexDigit d l) :
      Piece ['\\', 'u', a, b, c, d] (.inr (((i * 16 + j) * 16 + k) * 16 + l))

/-- The inside of a string literal. -/
inductive Inside : List Char → List Glyph → Prop where
  | nil : Inside [] []
  | cons {cs rest : List Char} {glyph : Glyph} {glyphs : List Glyph} (hpiece : Piece cs glyph)
      (hrest : Inside rest glyphs) : Inside (cs ++ rest) (glyph :: glyphs)

def IsHigh (unit : Nat) : Prop := 0xD800 ≤ unit ∧ unit < 0xDC00

def IsLow (unit : Nat) : Prop := 0xDC00 ≤ unit ∧ unit < 0xE000

instance (unit : Nat) : Decidable (IsHigh unit) := inferInstanceAs (Decidable (_ ∧ _))

instance (unit : Nat) : Decidable (IsLow unit) := inferInstanceAs (Decidable (_ ∧ _))

/-- The character of a surrogate pair. -/
def paired (high low : Nat) : Char :=
  Char.ofNat (0x10000 + (high - 0xD800) * 0x400 + (low - 0xDC00))

/-- The characters that a literal spells.  A high surrogate stands for something only
    with a low one right after it, and a low one only with a high one before. -/
def charsOf : (high : Option Nat) → List Glyph → Option (List Char)
  | none, [] => some []
  | some _, [] => none
  | none, .inl c :: glyphs => (charsOf none glyphs).map (c :: ·)
  | some _, .inl _ :: _ => none
  | none, .inr unit :: glyphs =>
    if IsHigh unit then charsOf (some unit) glyphs
    else if IsLow unit then none
    else (charsOf none glyphs).map (Char.ofNat unit :: ·)
  | some high, .inr unit :: glyphs =>
    if IsLow unit then (charsOf none glyphs).map (paired high unit :: ·) else none

/-- What stands between the quotes of a literal, and the text that it spells, if any. -/
def IsLiteral (cs : List Char) (text : Option String) : Prop :=
  ∃ glyphs, Inside cs glyphs ∧ text = (charsOf none glyphs).map String.ofList

def IsDigits (ds : List Char) : Prop := ds ≠ [] ∧ ∀ d ∈ ds, d.isDigit = true

/-- The digits of a number before the point: no zero leads others. -/
def IsWhole (cs : List Char) : Prop := cs = ['0'] ∨ IsDigits cs ∧ cs.head? ≠ some '0'

def IsPlaces (cs : List Char) : Prop := cs = [] ∨ ∃ ds, IsDigits ds ∧ cs = '.' :: ds

def IsExponent (cs : List Char) : Prop :=
  cs = [] ∨ ∃ mark sign ds, (mark = 'e' ∨ mark = 'E') ∧
    (sign = [] ∨ sign = ['+'] ∨ sign = ['-']) ∧ IsDigits ds ∧ cs = mark :: sign ++ ds

inductive IsNumber : List Char → Prop where
  | mk {sign whole places exponent : List Char} (hsign : sign = [] ∨ sign = ['-'])
      (hwhole : IsWhole whole) (hplaces : IsPlaces places) (hexponent : IsExponent exponent) :
      IsNumber (sign ++ (whole ++ (places ++ exponent)))

/-! ### Phrases -/

abbrev Member := Option String × Json

/-- The parts of a text that the grammar has rules for. -/
inductive Phrase where
  | value (j : Json)
  /-- A value with white space around it. -/
  | item (j : Json)
  /-- Items with commas between them. -/
  | items (js : List Json)
  | member (m : Member)
  | members (ms : List Member)

/-- The texts that spell a phrase. -/
inductive Spells : Phrase → List Char → Prop where
  | null : Spells (.value .null) "null".toList
  | yes : Spells (.value (.bool true)) "true".toList
  | no : Spells (.value (.bool false)) "false".toList
  | number {cs : List Char} (h : IsNumber cs) : Spells (.value (.number cs)) cs
  | string {cs : List Char} {text : Option String} (h : IsLiteral cs text) :
      Spells (.value (.string text)) ('"' :: (cs ++ ['"']))
  | emptyArray {bs : List Char} (hb : Blank bs) :
      Spells (.value (.array [])) ('[' :: (bs ++ [']']))
  | array {js : List Json} {cs : List Char} (h : Spells (.items js) cs) :
      Spells (.value (.array js)) ('[' :: (cs ++ [']']))
  | emptyObject {bs : List Char} (hb : Blank bs) :
      Spells (.value (.object [])) ('\x7b' :: (bs ++ ['\x7d']))
  | object {ms : List Member} {cs : List Char} (h : Spells (.members ms) cs) :
      Spells (.value (.object ms)) ('\x7b' :: (cs ++ ['\x7d']))
  | item {j : Json} {bs cs bs' : List Char} (hb : Blank bs) (h : Spells (.value j) cs)
      (hb' : Blank bs') : Spells (.item j) (bs ++ (cs ++ bs'))
  | lastItem {j : Json} {cs : List Char} (h : Spells (.item j) cs) : Spells (.items [j]) cs
  | moreItems {j : Json} {js : List Json} {cs rest : List Char} (h : Spells (.item j) cs)
      (hrest : Spells (.items js) rest) : Spells (.items (j :: js)) (cs ++ ',' :: rest)
  | member {name : Option String} {j : Json} {bs ns bs' cs : List Char} (hb : Blank bs)
      (hname : IsLiteral ns name) (hb' : Blank bs') (h : Spells (.item j) cs) :
      Spells (.member (name, j)) (bs ++ '"' :: (ns ++ '"' :: (bs' ++ ':' :: cs)))
  | lastMember {m : Member} {cs : List Char} (h : Spells (.member m) cs) :
      Spells (.members [m]) cs
  | moreMembers {m : Member} {ms : List Member} {cs rest : List Char}
      (h : Spells (.member m) cs) (hrest : Spells (.members ms) rest) :
      Spells (.members (m :: ms)) (cs ++ ',' :: rest)

/-- A text spells a value, with white space around it. -/
def IsText (j : Json) (text : String) : Prop := Spells (.item j) text.toList

/-! ### The reader over tokens -/

theorem hexDigit?_of_hexDigit {c : Char} {n : Nat} (h : HexDigit c n) : hexDigit? c = some n := by
  have hlt : n < 16 := by
    rcases h with h | h <;> exact (List.getElem?_eq_some_iff.mp h).1
  have hall : ∀ m < 16, ∀ l ∈ ["0123456789abcdef".toList, "0123456789ABCDEF".toList],
      (l[m]?).bind hexDigit? = some m := by decide
  rcases h with h | h
  · have hm := hall n hlt _ (List.mem_cons_self ..)
    rwa [h] at hm
  · have hm := hall n hlt _ (List.mem_cons_of_mem _ (List.mem_cons_self ..))
    rwa [h] at hm

theorem shortEscape?_of_shortEscape {letter c : Char} (h : ShortEscape letter c) :
    letter ≠ 'u' ∧ shortEscape? letter = some c := by
  cases h <;> exact ⟨by decide, rfl⟩

namespace Quoted

/-- A literal with one more thing in it. -/
def take (q : Quoted) : Glyph → Quoted
  | .inl c => q.push c
  | .inr unit => q.pushUnit unit

theorem escape_take (q : Quoted) (glyph : Glyph) : (q.take glyph).escape = .plain := by
  cases glyph with
  | inl c => rfl
  | inr unit =>
    simp only [take, pushUnit]
    split
    · rfl
    · split
      · split <;> rfl
      · rfl

/-- The characters of a literal in which some things are still to come. -/
def chars (q : Quoted) (glyphs : List Glyph) : Option (List Char) :=
  q.spelled.bind fun before => (charsOf q.high glyphs).map (before.reverse ++ ·)

theorem chars_cons (q : Quoted) (glyph : Glyph) (glyphs : List Glyph) :
    q.chars (glyph :: glyphs) = (q.take glyph).chars glyphs := by
  obtain ⟨before, high, escape⟩ := q
  cases glyph with
  | inl c =>
    cases high with
    | some high => cases before <;> rfl
    | none => cases before <;> simp [chars, take, push, charsOf, Function.comp_def]
  | inr unit =>
    have hhigh : IsHigh unit ↔ 0xD800 ≤ unit ∧ unit < 0xDC00 := Iff.rfl
    have hlow : IsLow unit ↔ 0xDC00 ≤ unit ∧ unit < 0xE000 := Iff.rfl
    cases high with
    | none =>
      simp only [chars, take, pushUnit, charsOf, ← hhigh, ← hlow]
      split
      · rfl
      · split
        · cases before <;> rfl
        · cases before <;> simp [push, Function.comp_def]
    | some high =>
      simp only [chars, take, pushUnit, charsOf, ← hhigh, ← hlow]
      by_cases hunit : IsHigh unit
      · have hnot : ¬IsLow unit := by
          unfold IsHigh at hunit
          unfold IsLow
          omega
        cases before <;> simp [hunit, hnot]
      · by_cases hunit' : IsLow unit
        · cases before <;> simp [hunit, hunit', paired, Function.comp_def]
        · cases before <;> simp [hunit, hunit', push]

theorem text_foldl (q : Quoted) (glyphs : List Glyph) :
    (glyphs.foldl take q).text = (q.chars glyphs).map String.ofList := by
  induction glyphs generalizing q with
  | nil =>
    obtain ⟨before, high, escape⟩ := q
    cases high <;> cases before <;> simp [text, chars, charsOf]
  | cons glyph glyphs ih => rw [List.foldl_cons, ih, chars_cons]

/-- A literal read from its beginning spells the text of its glyphs. -/
theorem text_of_inside (glyphs : List Glyph) :
    (glyphs.foldl take {}).text = (charsOf none glyphs).map String.ofList := by
  rw [text_foldl, chars]
  cases charsOf none glyphs <;> rfl

end Quoted

namespace Reader

variable {r r' r'' : Reader} {cs ds : List Char} {c : Char} {stack : List Frame} {j : Json}
  {phase : Phase}

theorem run_append_of (h : r.run cs = some r') : r.run (cs ++ ds) = r'.run ds := by
  rw [run_append, h]
  rfl

theorem run_cons_of (h : r.step c = some r') : r.run (c :: cs) = r'.run cs := by
  rw [run, h]

theorem run_piece {glyph : Glyph} {q : Quoted} {asName : Bool} (hpiece : Piece cs glyph)
    (hq : q.escape = .plain) :
    Reader.run ⟨stack, .quoted asName q⟩ cs = some ⟨stack, .quoted asName (q.take glyph)⟩ := by
  obtain ⟨before, high, escape⟩ := q
  simp only at hq
  subst hq
  cases hpiece with
  | plain hquote hbackslash hcontrol =>
    simp [run, step, Quoted.step, hquote, hbackslash, Nat.not_lt.mpr hcontrol, Quoted.take]
  | short h =>
    obtain ⟨hu, hletter⟩ := shortEscape?_of_shortEscape h
    simp [run, step, Quoted.step, hu, hletter, Quoted.take, Quoted.push]
  | unit ha hb hc hd =>
    simp [run, step, Quoted.step, hexDigit?_of_hexDigit ha, hexDigit?_of_hexDigit hb,
      hexDigit?_of_hexDigit hc, hexDigit?_of_hexDigit hd, Quoted.take]

theorem run_inside {glyphs : List Glyph} {q : Quoted} {asName : Bool}
    (hinside : Inside cs glyphs) (hq : q.escape = .plain) :
    Reader.run ⟨stack, .quoted asName q⟩ cs =
      some ⟨stack, .quoted asName (glyphs.foldl Quoted.take q)⟩ := by
  induction hinside generalizing q with
  | nil => rfl
  | cons hpiece _ ih =>
    rw [run_append_of (run_piece hpiece hq)]
    exact ih (q.escape_take _)

/-- The reader goes through a literal to the quote at its end. -/
theorem run_literal (stack : List Frame) (asName : Bool) {text : Option String}
    (h : IsLiteral cs text) :
    ∃ q, Reader.run ⟨stack, .quoted asName {}⟩ cs = some ⟨stack, .quoted asName q⟩ ∧
      q.step '"' = some (.inr text) := by
  obtain ⟨glyphs, hinside, rfl⟩ := h
  refine ⟨_, run_inside hinside rfl, ?_⟩
  have hplain : (glyphs.foldl Quoted.take {}).escape = .plain := by
    cases glyphs using List.reverseRecOn with
    | nil => rfl
    | append_singleton glyphs glyph => rw [List.foldl_append, List.foldl_cons, List.foldl_nil, Quoted.escape_take]
  rw [Quoted.step, hplain]
  simp [Quoted.text_of_inside]

end Reader

/-! ### The reader over numbers -/

namespace Numeral

/-- The place in a number after some more of its characters. -/
def through (n : Numeral) (cs : List Char) : Option Numeral := cs.foldlM step? n

theorem through_append {n n' : Numeral} {cs ds : List Char} (h : n.through cs = some n') :
    n.through (cs ++ ds) = n'.through ds := by
  rw [through, List.foldlM_append]
  rw [through] at h
  rw [h]
  rfl

theorem through_cons {n n' : Numeral} {c : Char} {cs : List Char} (h : n.step? c = some n') :
    n.through (c :: cs) = n'.through cs := by
  rw [through, List.foldlM_cons, h]
  rfl

/-- Among digits there may be more of them. -/
theorem through_digits {n : Numeral} {ds : List Char} (hds : ∀ d ∈ ds, d.isDigit = true)
    (hn : ∀ d, d.isDigit = true → n.step? d = some n) : n.through ds = some n := by
  induction ds with
  | nil => rfl
  | cons d ds ih =>
    rw [through_cons (hn d (hds d List.mem_cons_self))]
    exact ih fun d' hd' => hds d' (List.mem_cons_of_mem _ hd')

theorem through_isDigits {n n' : Numeral} {ds : List Char} (hds : IsDigits ds)
    (hfirst : ∀ d, d.isDigit = true → n.step? d = some n')
    (hmore : ∀ d, d.isDigit = true → n'.step? d = some n') : n.through ds = some n' := by
  obtain ⟨hne, hall⟩ := hds
  cases ds with
  | nil => exact absurd rfl hne
  | cons d ds =>
    rw [through_cons (hfirst d (hall d List.mem_cons_self))]
    exact through_digits (fun d' hd' => hall d' (List.mem_cons_of_mem _ hd')) hmore

theorem through_exponent {n : Numeral} {es : List Char} (hn : n.isComplete = true)
    (hmark : ∀ c, c = 'e' ∨ c = 'E' → n.step? c = some mark)
    (hes : IsExponent es) :
    ∃ n', n.through es = some n' ∧ n'.isComplete = true := by
  rcases hes with rfl | ⟨m, signs, ds, hm, hsigns, hds, rfl⟩
  · exact ⟨n, rfl, hn⟩
  · refine ⟨exponent, ?_, rfl⟩
    have hdigit (n : Numeral) (hn : n = mark ∨ n = markSign ∨ n = exponent) (d : Char)
        (hd : d.isDigit = true) : n.step? d = some exponent := by
      rcases hn with rfl | rfl | rfl <;> simp [step?, hd]
    rw [List.cons_append, through_cons (hmark m hm)]
    have hrest (n : Numeral) (hn : n = mark ∨ n = markSign) : n.through ds = some exponent := by
      refine through_isDigits hds (hdigit n ?_) (hdigit exponent (Or.inr (Or.inr rfl)))
      rcases hn with rfl | rfl <;> simp
    rcases hsigns with rfl | rfl | rfl
    · exact hrest mark (Or.inl rfl)
    · exact (through_cons rfl).trans (hrest markSign (Or.inr rfl))
    · exact (through_cons rfl).trans (hrest markSign (Or.inr rfl))

theorem through_places {n : Numeral} {ps es : List Char} (hn : n = zero ∨ n = whole)
    (hps : IsPlaces ps) (hes : IsExponent es) :
    ∃ n', n.through (ps ++ es) = some n' ∧ n'.isComplete = true := by
  rcases hps with rfl | ⟨ds, hds, rfl⟩
  · refine through_exponent ?_ (fun c hc => ?_) hes
    · rcases hn with rfl | rfl <;> rfl
    · rcases hn with rfl | rfl <;> rcases hc with rfl | rfl <;> rfl
  · have hpoint : n.step? '.' = some point := by
      rcases hn with rfl | rfl <;> rfl
    have hdigits : point.through ds = some places :=
      through_isDigits hds (fun d hd => by simp [step?, hd]) fun d hd => by simp [step?, hd]
    rw [List.cons_append, through_cons hpoint, through_append hdigits]
    refine through_exponent rfl (fun c hc => ?_) hes
    rcases hc with rfl | rfl <;> rfl

/-- A number is gone through from the place after its sign. -/
theorem through_number {ws ps es : List Char} (hws : IsWhole ws) (hps : IsPlaces ps)
    (hes : IsExponent es) :
    ∃ n, sign.through (ws ++ (ps ++ es)) = some n ∧ n.isComplete = true := by
  rcases hws with rfl | ⟨⟨hne, hall⟩, hhead⟩
  · rw [List.singleton_append, through_cons rfl]
    exact through_places (Or.inl rfl) hps hes
  · cases ws with
    | nil => exact absurd rfl hne
    | cons d ds =>
      have hd : d.isDigit = true := hall d List.mem_cons_self
      have hzero : d ≠ '0' := by
        rintro rfl
        exact hhead rfl
      have hfirst : sign.step? d = some whole := by simp [step?, hzero, hd]
      have hmore : whole.through ds = some whole :=
        through_digits (fun d' hd' => hall d' (List.mem_cons_of_mem _ hd'))
          fun d' hd' => by simp [step?, hd']
      rw [List.cons_append, through_cons hfirst, through_append hmore]
      exact through_places (Or.inr rfl) hps hes

/-- A number begins at the place after a sign, whether it has one or not. -/
theorem start_number {cs : List Char} (h : IsNumber cs) :
    ∃ c rest n n', cs = c :: rest ∧ start? c = some n ∧ n.through rest = some n' ∧
      n'.isComplete = true := by
  obtain ⟨hsign, hws, hps, hes⟩ := h
  obtain ⟨n', hthrough, hcomplete⟩ := through_number hws hps hes
  rcases hsign with rfl | rfl
  · rename_i ws ps es
    cases ws with
    | nil =>
      rcases hws with hws | ⟨⟨hne, -⟩, -⟩
      · cases hws
      · exact absurd rfl hne
    | cons c ws =>
      rw [List.cons_append] at hthrough
      have hdigit : c.isDigit = true := by
        rcases hws with hws | ⟨⟨-, hall⟩, -⟩
        · cases hws
          rfl
        · exact hall c List.mem_cons_self
      have hminus : c ≠ '-' := by
        rintro rfl
        cases hdigit
      have hstep : sign.step? c = start? c := by simp [step?, start?, hminus]
      cases hstart : start? c with
      | none =>
        rw [through, List.foldlM_cons, hstep, hstart] at hthrough
        cases hthrough
      | some n =>
        rw [through_cons (hstep.trans hstart)] at hthrough
        exact ⟨c, _, n, n', rfl, hstart, hthrough, hcomplete⟩
  · exact ⟨'-', _, sign, n', rfl, rfl, hthrough, hcomplete⟩

theorem of_start? {c : Char} {n : Numeral} (h : start? c = some n) : c = '-' ∨ c.isDigit = true := by
  unfold start? at h
  split at h
  · next hc => exact Or.inl hc
  · split at h
    · next hc =>
      subst hc
      exact Or.inr rfl
    · split at h
      · next hc => exact Or.inr hc
      · cases h

end Numeral

namespace Reader

variable {r r' : Reader} {cs ds : List Char} {c : Char} {stack : List Frame} {j : Json}
  {phase : Phase}

theorem run_numeral {n n' : Numeral} {literal : List Char} (h : n.through cs = some n') :
    Reader.run ⟨stack, .numeral n literal⟩ cs =
      some ⟨stack, .numeral n' (cs.reverse ++ literal)⟩ := by
  induction cs generalizing n literal with
  | nil =>
    cases h
    rfl
  | cons c cs ih =>
    rw [Numeral.through, List.foldlM_cons] at h
    cases hstep : n.step? c with
    | none =>
      rw [hstep] at h
      cases h
    | some m =>
      rw [hstep] at h
      have hone : step ⟨stack, .numeral n literal⟩ c = some ⟨stack, .numeral m (c :: literal)⟩ := by
        simp only [step, hstep]
      rw [run_cons_of hone, ih h, List.reverse_cons, List.append_assoc]
      rfl

/-! ### The reader between values -/

theorem isSpace_iff : isSpace c = true ↔ c = ' ' ∨ c = '\n' ∨ c = '\r' ∨ c = '\t' := by
  simp [isSpace, or_assoc]

/-- Where a token has to come, white space may stand before it. -/
theorem run_blank (hb : Blank cs) (hstep : ∀ c, isSpace c = true → r.step c = some r) :
    r.run cs = some r := by
  induction cs with
  | nil => rfl
  | cons c cs ih =>
    rw [run_cons_of (hstep c (isSpace_iff.mpr (hb c List.mem_cons_self)))]
    exact ih fun d hd => hb d (List.mem_cons_of_mem _ hd)

/-- A place where a value may begin. -/
def BeginsValue (phase : Phase) : Prop := phase = .value ∨ phase = .firstItem

/-- A place where a member may begin. -/
def BeginsMember (phase : Phase) : Prop := phase = .firstMember ∨ phase = .nextMember

theorem BeginsValue.step_blank (hp : BeginsValue phase) (hc : isSpace c = true) :
    step ⟨stack, phase⟩ c = some ⟨stack, phase⟩ := by
  rcases hp with rfl | rfl <;> simp [step, hc]

theorem BeginsMember.step_blank (hp : BeginsMember phase) (hc : isSpace c = true) :
    step ⟨stack, phase⟩ c = some ⟨stack, phase⟩ := by
  rcases hp with rfl | rfl <;> simp [step, hc]

theorem BeginsValue.step (hp : BeginsValue phase) (hc : isSpace c = false) (hend : c ≠ ']') :
    step ⟨stack, phase⟩ c = beginValue stack c := by
  rcases hp with rfl | rfl <;> simp [Reader.step, hc, hend]

theorem BeginsMember.step_quote (hp : BeginsMember phase) :
    step ⟨stack, phase⟩ '"' = some ⟨stack, .quoted true {}⟩ := by
  rcases hp with rfl | rfl <;> rfl

/-- A value has been read, but for the end of a number. -/
inductive Ends (stack : List Frame) (j : Json) : Reader → Prop where
  | done : Ends stack j ⟨stack, .done j⟩
  | numeral {n : Numeral} {literal : List Char} (hcomplete : n.isComplete = true)
      (hj : j = .number literal.reverse) : Ends stack j ⟨stack, .numeral n literal⟩

theorem step?_of_stop {n : Numeral} (hcomplete : n.isComplete = true)
    (hc : isSpace c = true ∨ c = ',' ∨ c = ']' ∨ c = '\x7d') : n.step? c = none := by
  rw [isSpace_iff] at hc
  cases n with
  | zero => rcases hc with (rfl | rfl | rfl | rfl) | rfl | rfl | rfl <;> rfl
  | whole => rcases hc with (rfl | rfl | rfl | rfl) | rfl | rfl | rfl <;> rfl
  | places => rcases hc with (rfl | rfl | rfl | rfl) | rfl | rfl | rfl <;> rfl
  | exponent => rcases hc with (rfl | rfl | rfl | rfl) | rfl | rfl | rfl <;> rfl
  | sign => cases hcomplete
  | point => cases hcomplete
  | mark => cases hcomplete
  | markSign => cases hcomplete

/-- What ends a number ends it as any other value. -/
theorem Ends.step (h : Ends stack j r)
    (hc : isSpace c = true ∨ c = ',' ∨ c = ']' ∨ c = '\x7d') :
    r.step c = step ⟨stack, .done j⟩ c := by
  cases h with
  | done => rfl
  | numeral hcomplete hj =>
    subst hj
    simp only [Reader.step, step?_of_stop hcomplete hc, hcomplete, if_true]

theorem Ends.run_blank (h : Ends stack j r) (hb : Blank cs) :
    ∃ r', r.run cs = some r' ∧ Ends stack j r' := by
  cases cs with
  | nil => exact ⟨r, rfl, h⟩
  | cons c cs =>
    have hc : isSpace c = true := isSpace_iff.mpr (hb c List.mem_cons_self)
    have hdone (c : Char) (hc : isSpace c = true) :
        Reader.step ⟨stack, .done j⟩ c = some ⟨stack, .done j⟩ := by
      simp [Reader.step, hc]
    refine ⟨⟨stack, .done j⟩, ?_, .done⟩
    rw [run_cons_of ((h.step (Or.inl hc)).trans (hdone c hc))]
    exact Reader.run_blank (fun d hd => hb d (List.mem_cons_of_mem _ hd)) hdone

theorem Ends.run_stop (h : Ends stack j r) (hc : c = ',' ∨ c = ']' ∨ c = '\x7d')
    (hafter : afterValue stack j c = some r') : r.run (c :: cs) = r'.run cs := by
  refine run_cons_of ?_
  rw [h.step (Or.inr hc), ← hafter]
  rcases hc with rfl | rfl | rfl <;> rfl

/-- The text of a value leaves nothing to be read but the end of a number. -/
theorem Ends.finish (h : Ends [] j r) : r.finish = some j := by
  cases h with
  | done => rfl
  | numeral hcomplete hj =>
    subst hj
    simp only [Reader.finish, hcomplete, if_true]

end Reader

/-! ### The reader over phrases -/

open Reader

/-- What the reader does over a text of a phrase, wherever it may meet one. -/
def Phrase.Reads (cs : List Char) : Phrase → Prop
  | .value j | .item j => ∀ stack phase, BeginsValue phase →
    ∃ r, Reader.run ⟨stack, phase⟩ cs = some r ∧ Ends stack j r
  | .items js => ∀ stack items phase, BeginsValue phase →
    Reader.run ⟨.array items :: stack, phase⟩ (cs ++ [']']) =
      some ⟨stack, .done (.array (items.reverse ++ js))⟩
  | .member m => ∀ stack members phase, BeginsMember phase →
    ∃ r, Reader.run ⟨.object members :: stack, phase⟩ cs = some r ∧
      Ends (.member members m.1 :: stack) m.2 r
  | .members ms => ∀ stack members phase, BeginsMember phase →
    Reader.run ⟨.object members :: stack, phase⟩ (cs ++ ['\x7d']) =
      some ⟨stack, .done (.object (members.reverse ++ ms))⟩

theorem reads_number {cs : List Char} (h : IsNumber cs) :
    (Phrase.value (.number cs)).Reads cs := by
  intro stack phase hp
  obtain ⟨c, rest, n, n', rfl, hstart, hthrough, hcomplete⟩ := Numeral.start_number h
  have hplain : isSpace c = false ∧ c ≠ ']' := by
    rcases Numeral.of_start? hstart with rfl | hdigit
    · exact ⟨rfl, by decide⟩
    · refine ⟨?_, ?_⟩
      · rw [Bool.eq_false_iff, Ne, isSpace_iff]
        rintro (rfl | rfl | rfl | rfl) <;> cases hdigit
      · rintro rfl
        cases hdigit
  have hbegin : beginValue stack c = some ⟨stack, .numeral n [c]⟩ := by
    unfold beginValue
    split
    all_goals first
      | cases hstart
      | rw [hstart]; rfl
  rw [run_cons_of ((hp.step hplain.1 hplain.2).trans hbegin), run_numeral hthrough]
  refine ⟨_, rfl, .numeral hcomplete ?_⟩
  simp

theorem Spells.reads {phrase : Phrase} {cs : List Char} (h : Spells phrase cs) :
    phrase.Reads cs := by
  induction h with
  | null =>
    intro stack phase hp
    refine ⟨⟨stack, .done .null⟩, ?_, .done⟩
    rcases hp with rfl | rfl <;> rfl
  | yes =>
    intro stack phase hp
    refine ⟨⟨stack, .done (.bool true)⟩, ?_, .done⟩
    rcases hp with rfl | rfl <;> rfl
  | no =>
    intro stack phase hp
    refine ⟨⟨stack, .done (.bool false)⟩, ?_, .done⟩
    rcases hp with rfl | rfl <;> rfl
  | number h => exact reads_number h
  | string h =>
    intro stack phase hp
    obtain ⟨q, hrun, hstep⟩ := run_literal stack false h
    have hquote : step ⟨stack, phase⟩ '"' = some ⟨stack, .quoted false {}⟩ :=
      hp.step rfl (by decide)
    rw [run_cons_of hquote, run_append_of hrun]
    refine ⟨_, run_cons_of ?_, .done⟩
    simp only [step, hstep]
    rfl
  | emptyArray hb =>
    intro stack phase hp
    have hopen : step ⟨stack, phase⟩ '[' = some ⟨.array [] :: stack, .firstItem⟩ :=
      hp.step rfl (by decide)
    rw [run_cons_of hopen, run_append_of (run_blank hb fun c hc => BeginsValue.step_blank (Or.inr rfl) hc)]
    exact ⟨_, rfl, .done⟩
  | array _ ih =>
    intro stack phase hp
    have hopen : step ⟨stack, phase⟩ '[' = some ⟨.array [] :: stack, .firstItem⟩ :=
      hp.step rfl (by decide)
    rw [run_cons_of hopen]
    exact ⟨_, ih stack [] .firstItem (Or.inr rfl), .done⟩
  | emptyObject hb =>
    intro stack phase hp
    have hopen : step ⟨stack, phase⟩ '\x7b' = some ⟨.object [] :: stack, .firstMember⟩ :=
      hp.step rfl (by decide)
    rw [run_cons_of hopen, run_append_of (run_blank hb fun c hc => BeginsMember.step_blank (Or.inl rfl) hc)]
    exact ⟨_, rfl, .done⟩
  | object _ ih =>
    intro stack phase hp
    have hopen : step ⟨stack, phase⟩ '\x7b' = some ⟨.object [] :: stack, .firstMember⟩ :=
      hp.step rfl (by decide)
    rw [run_cons_of hopen]
    exact ⟨_, ih stack [] .firstMember (Or.inl rfl), .done⟩
  | item hb _ hb' ih =>
    intro stack phase hp
    obtain ⟨r, hrun, hends⟩ := ih stack phase hp
    rw [run_append_of (run_blank hb fun c hc => hp.step_blank hc), run_append_of hrun]
    exact hends.run_blank hb'
  | lastItem _ ih =>
    intro stack items phase hp
    obtain ⟨r, hrun, hends⟩ := ih (.array items :: stack) phase hp
    rw [run_append_of hrun, hends.run_stop (by simp) rfl]
    simp [run]
  | moreItems _ _ ih ihrest =>
    intro stack items phase hp
    obtain ⟨r, hrun, hends⟩ := ih (.array items :: stack) phase hp
    rw [List.append_assoc, run_append_of hrun, List.cons_append, hends.run_stop (by simp) rfl,
      ihrest stack _ .value (Or.inl rfl), List.reverse_cons, List.append_assoc]
    rfl
  | @member name j bs ns bs' cs hb hname hb' _ ih =>
    intro stack members phase hp
    obtain ⟨q, hrun, hstep⟩ := run_literal (.object members :: stack) true hname
    rw [run_append_of (run_blank hb fun c hc => hp.step_blank hc), run_cons_of hp.step_quote,
      run_append_of hrun]
    have hclose : step ⟨.object members :: stack, .quoted true q⟩ '"' =
        some ⟨.member members name :: stack, .colon⟩ := by
      simp only [step, hstep]
      rfl
    have hcolon (c : Char) (hc : isSpace c = true) :
        step ⟨.member members name :: stack, .colon⟩ c =
          some ⟨.member members name :: stack, .colon⟩ := by
      simp [step, hc]
    rw [run_cons_of hclose, run_append_of (run_blank hb' hcolon), run_cons_of rfl]
    exact ih _ .value (Or.inl rfl)
  | lastMember _ ih =>
    intro stack members phase hp
    obtain ⟨r, hrun, hends⟩ := ih stack members phase hp
    rw [run_append_of hrun, hends.run_stop (by simp) rfl]
    simp [run]
  | moreMembers _ _ ih ihrest =>
    intro stack members phase hp
    obtain ⟨r, hrun, hends⟩ := ih stack members phase hp
    rw [List.append_assoc, run_append_of hrun, List.cons_append, hends.run_stop (by simp) rfl,
      ihrest stack _ .nextMember (Or.inr rfl), List.reverse_cons, List.append_assoc]
    rfl

/-- Every text of a value is read as that value. -/
theorem read?_of_isText {j : Json} {text : String} (h : IsText j text) : read? text = some j := by
  obtain ⟨r, hrun, hends⟩ := h.reads [] .value (Or.inl rfl)
  have hrun : Reader.run {} text.toList = some r := hrun
  rw [read?, hrun]
  exact hends.finish

end BuildTargets.Json
