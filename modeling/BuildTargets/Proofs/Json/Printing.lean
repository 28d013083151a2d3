/-
  BuildTargets/Proofs/Json/Printing.lean
  ======================================
  **What is printed spells what was to be printed.**

  Every value whose numbers are numbers is printed as a text of it, by the rules of
  the grammar (`isText_pretty`), and so it is read back as it was (`read?_pretty`).
-/
import BuildTargets.Json.Printer
import BuildTargets.Proofs.Json.Grammar

namespace BuildTargets.Json

/-- A value in which the literals of numbers are numbers. -/
inductive IsNumbered : Json → Prop where
  | null : IsNumbered .null
  | bool (b : Bool) : IsNumbered (.bool b)
  | number {literal : List Char} (h : IsNumber literal) : IsNumbered (.number literal)
  | string (text : Option String) : IsNumbered (.string text)
  | array {items : List Json} (h : ∀ j ∈ items, IsNumbered j) : IsNumbered (.array items)
  | object {members : List Member} (h : ∀ m ∈ members, IsNumbered m.2) :
      IsNumbered (.object members)

/-! ### Strings -/

theorem hexDigit_hexChar {n : Nat} (h : n < 16) : HexDigit (hexChar n) n := by
  have hall : ∀ m < 16, "0123456789abcdef".toList[m]? = some (hexChar m) := by decide
  exact Or.inl (hall n h)

/-- A character is written as one piece that stands for it. -/
theorem piece_escapeChar (c : Char) :
    ∃ glyph, Piece (escapeChar c) glyph ∧
      ∀ glyphs, charsOf none (glyph :: glyphs) = (charsOf none glyphs).map (c :: ·) := by
  have hshort (letter : Char) (h : ShortEscape letter c) :
      ∃ glyph, Piece ['\\', letter] glyph ∧
        ∀ glyphs, charsOf none (glyph :: glyphs) = (charsOf none glyphs).map (c :: ·) :=
    ⟨.inl c, .short h, fun _ => rfl⟩
  unfold escapeChar
  split
  · next hc =>
    subst hc
    exact hshort _ .quote
  split
  · next hc =>
    subst hc
    exact hshort _ .backslash
  split
  · next hc =>
    subst hc
    exact hshort _ .backspace
  split
  · next hc =>
    subst hc
    exact hshort _ .formFeed
  split
  · next hc =>
    subst hc
    exact hshort _ .lineFeed
  split
  · next hc =>
    subst hc
    exact hshort _ .carriageReturn
  split
  · next hc =>
    subst hc
    exact hshort _ .tab
  split
  · next hcontrol =>
    have hzero : HexDigit '0' 0 := Or.inl rfl
    have hhigh := hexDigit_hexChar (n := c.toNat / 16) (by omega)
    have hlow := hexDigit_hexChar (n := c.toNat % 16) (by omega)
    refine ⟨_, .unit hzero hzero hhigh hlow, fun glyphs => ?_⟩
    have hunit : ((0 * 16 + 0) * 16 + c.toNat / 16) * 16 + c.toNat % 16 = c.toNat := by omega
    have hnotHigh : ¬IsHigh c.toNat := by
      unfold IsHigh
      omega
    have hnotLow : ¬IsLow c.toNat := by
      unfold IsLow
      omega
    rw [hunit, charsOf, if_neg hnotHigh, if_neg hnotLow, Char.ofNat_toNat]
  · next hquote hbackslash _ _ _ _ _ hcontrol =>
    exact ⟨.inl c, .plain hquote hbackslash (Nat.not_lt.mp hcontrol), fun _ => rfl⟩

theorem inside_escapeChar (cs : List Char) :
    ∃ glyphs, Inside (cs.flatMap escapeChar) glyphs ∧ charsOf none glyphs = some cs := by
  induction cs with
  | nil => exact ⟨[], .nil, rfl⟩
  | cons c cs ih =>
    obtain ⟨glyph, hpiece, hglyph⟩ := piece_escapeChar c
    obtain ⟨glyphs, hinside, hchars⟩ := ih
    refine ⟨glyph :: glyphs, ?_, ?_⟩
    · rw [List.flatMap_cons]
      exact .cons hpiece hinside
    · rw [hglyph, hchars]
      rfl

/-- A literal with its quotes. -/
theorem isLiteral_quote (text : Option String) :
    ∃ cs, quote text = '"' :: (cs ++ ['"']) ∧ IsLiteral cs text := by
  cases text with
  | some s =>
    obtain ⟨glyphs, hinside, hchars⟩ := inside_escapeChar s.toList
    refine ⟨_, rfl, glyphs, hinside, ?_⟩
    rw [hchars, Option.map_some, String.ofList_toList]
  | none =>
    have hdigit : HexDigit 'd' 13 ∧ HexDigit '8' 8 ∧ HexDigit '0' 0 :=
      ⟨Or.inl rfl, Or.inl rfl, Or.inl rfl⟩
    have hinside : Inside "\\ud800".toList [.inr 0xD800] :=
      .cons (.unit hdigit.1 hdigit.2.1 hdigit.2.2 hdigit.2.2) .nil
    exact ⟨_, rfl, _, hinside, rfl⟩

/-! ### Values -/

theorem blank_newline (depth : Nat) : Blank (newline depth) := by
  intro c hc
  rcases List.mem_cons.mp hc with rfl | hc
  · exact Or.inr (Or.inl rfl)
  · exact Or.inl (List.eq_of_mem_replicate hc)

theorem spells_layItems {depth : Nat} {j : Json} {js : List Json} {bs : List Char}
    (hj : Spells (.value j) (lay depth j)) (hjs : ∀ j ∈ js, Spells (.value j) (lay depth j))
    (hbs : Blank bs) : Spells (.items (j :: js)) (layItems depth true (j :: js) ++ bs) := by
  -- what stands before the first item is the same as before the others, but for the comma
  have hitems : Spells (.items (j :: js))
      (newline depth ++ (lay depth j ++ (layItems depth false js ++ bs))) := by
    induction js generalizing j with
    | nil => exact .lastItem (.item (blank_newline depth) hj hbs)
    | cons j' js ih =>
      have hrest := ih (hjs j' List.mem_cons_self) fun j'' hj'' =>
        hjs j'' (List.mem_cons_of_mem _ hj'')
      have hfirst := Spells.moreItems
        (.item (blank_newline depth) hj (fun _ h => absurd h List.not_mem_nil)) hrest
      simpa [layItems, separator] using hfirst
  simpa [layItems, separator] using hitems

theorem spells_layMembers {depth : Nat} {m : Member} {ms : List Member} {bs : List Char}
    (hm : Spells (.value m.2) (lay depth m.2))
    (hms : ∀ m ∈ ms, Spells (.value m.2) (lay depth m.2)) (hbs : Blank bs) :
    Spells (.members (m :: ms)) (layMembers depth true (m :: ms) ++ bs) := by
  have hspace : Blank [' '] := fun c hc => Or.inl (List.mem_singleton.mp hc)
  have hmember (m : Member) (bs : List Char) (hm : Spells (.value m.2) (lay depth m.2))
      (hbs : Blank bs) :
      Spells (.member m) (newline depth ++ (quote m.1 ++ (':' :: ' ' :: (lay depth m.2 ++ bs)))) := by
    obtain ⟨ns, hquote, hliteral⟩ := isLiteral_quote m.1
    rw [hquote]
    have h := Spells.member (blank_newline depth) hliteral
      (fun _ h => absurd h List.not_mem_nil) (.item hspace hm hbs)
    simpa using h
  have hmembers : Spells (.members (m :: ms)) (newline depth ++ (quote m.1 ++
      (':' :: ' ' :: (lay depth m.2 ++ (layMembers depth false ms ++ bs))))) := by
    induction ms generalizing m with
    | nil => exact .lastMember (hmember m bs hm hbs)
    | cons m' ms ih =>
      have hrest := ih (hms m' List.mem_cons_self) fun m'' hm'' =>
        hms m'' (List.mem_cons_of_mem _ hm'')
      have hfirst := Spells.moreMembers
        (hmember m [] hm (fun _ h => absurd h List.not_mem_nil)) hrest
      simpa [layMembers, separator] using hfirst
  simpa [layMembers, separator] using hmembers

theorem spells_lay {j : Json} (h : j.IsNumbered) (depth : Nat) :
    Spells (.value j) (lay depth j) := by
  induction h generalizing depth with
  | null =>
    rw [lay]
    exact .null
  | bool b =>
    cases b with
    | true =>
      rw [lay]
      exact .yes
    | false =>
      rw [lay]
      exact .no
  | number h =>
    rw [lay]
    exact .number h
  | string text =>
    obtain ⟨cs, hquote, hliteral⟩ := isLiteral_quote text
    rw [lay, hquote]
    exact .string hliteral
  | @array items _ ih =>
    cases items with
    | nil =>
      rw [lay]
      exact .emptyArray fun _ h => absurd h List.not_mem_nil
    | cons j js =>
      rw [lay]
      exact .array (spells_layItems (ih j List.mem_cons_self _)
        (fun j' hj' => ih j' (List.mem_cons_of_mem _ hj') _) (blank_newline depth))
  | @object members _ ih =>
    cases members with
    | nil =>
      rw [lay]
      exact .emptyObject fun _ h => absurd h List.not_mem_nil
    | cons m ms =>
      rw [lay]
      exact .object (spells_layMembers (ih m List.mem_cons_self _)
        (fun m' hm' => ih m' (List.mem_cons_of_mem _ hm') _) (blank_newline depth))

theorem isText_pretty {j : Json} (h : j.IsNumbered) : IsText j (pretty j) := by
  have hnone : Blank [] := fun _ h => absurd h List.not_mem_nil
  have hitem := Spells.item hnone (spells_lay h 0) hnone
  rw [IsText, pretty, String.toList_ofList]
  simpa using hitem

theorem read?_pretty {j : Json} (h : j.IsNumbered) : read? (pretty j) = some j :=
  read?_of_isText (isText_pretty h)

end BuildTargets.Json
