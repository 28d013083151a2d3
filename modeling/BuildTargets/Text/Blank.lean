/-
  BuildTargets/Text/Blank.lean
  ============================
  **Blank characters, and stripping characters from the ends of a text.**

  Driver versions, client diagnostics, bridge settings and tables are all cut
  at their blank ends.  *Blank* is the Unicode property `White_Space`: the 25
  characters of `Text.blanks`.  Stripping is stated for an arbitrary class of
  characters, because a bridge setting also loses its surrounding quotes.

  Main statements: a stripped text neither begins nor ends in the class
  (`head?_strip`, `getLast?_strip`), a text that does neither is left alone
  (`strip_eq_self`), and what is lost is of the class (`exists_strip`).
-/

namespace BuildTargets.Text

/-! ### The class of blanks -/

/-- The code points of the Unicode property `White_Space`. -/
def blanks : List Nat :=
  [0x09, 0x0A, 0x0B, 0x0C, 0x0D, 0x20, 0x85, 0xA0, 0x1680,
   0x2000, 0x2001, 0x2002, 0x2003, 0x2004, 0x2005, 0x2006, 0x2007, 0x2008, 0x2009, 0x200A,
   0x2028, 0x2029, 0x202F, 0x205F, 0x3000]

def isBlank (c : Char) : Bool := blanks.contains c.toNat

/-! ### Stripping -/

/-- Drops the longest run of items of the class `p` at the end. -/
def stripEnd {α : Type} (p : α → Bool) (cs : List α) : List α :=
  (cs.reverse.dropWhile p).reverse

/-- Drops the longest runs of items of the class `p` at both ends. -/
def strip {α : Type} (p : α → Bool) (cs : List α) : List α :=
  stripEnd p (cs.dropWhile p)

def trim (s : String) : String := String.ofList (strip isBlank s.toList)

def trimEnd (s : String) : String := String.ofList (stripEnd isBlank s.toList)

/-- Whether a text holds nothing but blank characters. -/
def isBlankText (s : String) : Bool := s.toList.all isBlank

variable {α : Type} {p : α → Bool} {cs : List α}

theorem head?_dropWhile_ne (c : α) (h : p c = true) : (cs.dropWhile p).head? ≠ some c := by
  induction cs with
  | nil => simp
  | cons d ds ih =>
    by_cases hd : p d = true
    · simpa [List.dropWhile_cons, hd] using ih
    · simp only [List.dropWhile_cons, hd, Bool.false_eq_true, if_false, List.head?_cons, ne_eq,
        Option.some.injEq]
      rintro rfl
      exact hd h

/-- A stripped end holds no character of the class. -/
theorem getLast?_stripEnd (c : α) (h : p c = true) : (stripEnd p cs).getLast? ≠ some c := by
  rw [stripEnd, List.getLast?_reverse]
  exact head?_dropWhile_ne c h

theorem dropWhile_eq_self (h : ∀ c, cs.head? = some c → p c = false) : cs.dropWhile p = cs := by
  cases cs with
  | nil => rfl
  | cons c cs => simp [h c rfl]

theorem stripEnd_eq_self (h : ∀ c, cs.getLast? = some c → p c = false) : stripEnd p cs = cs := by
  rw [stripEnd, dropWhile_eq_self, List.reverse_reverse]
  intro c hc
  exact h c (by rwa [List.head?_reverse] at hc)

/-- Only an end is lost by stripping it. -/
theorem stripEnd_prefix_of (p : α → Bool) (cs : List α) : stripEnd p cs <+: cs := by
  have h := List.dropWhile_suffix (l := cs.reverse) p
  rw [← List.reverse_prefix] at h
  simpa [stripEnd] using h

/-- A stripped text does not end in the class. -/
theorem getLast?_strip (c : α) (h : p c = true) : (strip p cs).getLast? ≠ some c :=
  getLast?_stripEnd c h

/-- A stripped text does not begin with the class. -/
theorem head?_strip (c : α) (h : p c = true) : (strip p cs).head? ≠ some c := by
  intro hc
  obtain ⟨rest, hrest⟩ := stripEnd_prefix_of p (cs.dropWhile p)
  have hd : (cs.dropWhile p).head? = some c := by
    rw [← hrest]
    show (strip p cs ++ rest).head? = some c
    simp [hc]
  exact head?_dropWhile_ne c h hd

/-- A text that neither begins nor ends in the class is its own stripped form. -/
theorem strip_eq_self (hh : ∀ c, cs.head? = some c → p c = false)
    (hl : ∀ c, cs.getLast? = some c → p c = false) : strip p cs = cs := by
  rw [strip, dropWhile_eq_self hh, stripEnd_eq_self hl]

theorem stripEnd_append_of_all {ds : List α} (h : ∀ c ∈ ds, p c = true) :
    stripEnd p (cs ++ ds) = stripEnd p cs := by
  rw [stripEnd, List.reverse_append, List.dropWhile_append_of_pos (by simpa using h)]
  rfl

/-- What is lost by stripping is of the class. -/
theorem exists_strip (p : α → Bool) (cs : List α) :
    ∃ front back, cs = front ++ strip p cs ++ back ∧ (∀ c ∈ front, p c = true) ∧
      ∀ c ∈ back, p c = true := by
  have hall (ds : List α) : ∀ c ∈ ds.takeWhile p, p c = true :=
    List.all_eq_true.mp List.all_takeWhile
  refine ⟨cs.takeWhile p, ((cs.dropWhile p).reverse.takeWhile p).reverse, ?_, hall cs, ?_⟩
  · have hend : strip p cs ++ ((cs.dropWhile p).reverse.takeWhile p).reverse = cs.dropWhile p := by
      rw [strip, stripEnd, ← List.reverse_append, List.takeWhile_append_dropWhile,
        List.reverse_reverse]
    rw [List.append_assoc, hend, List.takeWhile_append_dropWhile]
  · intro c hc
    exact hall _ c (List.mem_reverse.mp hc)

theorem mem_strip {c : α} (h : c ∈ cs) (hc : p c = false) : c ∈ strip p cs := by
  obtain ⟨front, back, heq, hfront, hback⟩ := exists_strip p cs
  rw [heq, List.mem_append, List.mem_append] at h
  rcases h with (h | h) | h
  · rw [hfront c h] at hc
    cases hc
  · exact h
  · rw [hback c h] at hc
    cases hc

theorem mem_of_mem_strip {c : α} (h : c ∈ strip p cs) : c ∈ cs := by
  obtain ⟨front, back, heq, -, -⟩ := exists_strip p cs
  rw [heq, List.mem_append, List.mem_append]
  exact Or.inl (Or.inr h)

/-- Nothing is left of a text that is all of the class. -/
theorem strip_eq_nil_iff : strip p cs = [] ↔ ∀ c ∈ cs, p c = true := by
  constructor
  · intro h c hc
    cases hp : p c with
    | true => rfl
    | false =>
      have hleft := mem_strip hc hp
      rw [h] at hleft
      cases hleft
  · intro h
    cases hs : strip p cs with
    | nil => rfl
    | cons c rest =>
      have hhead : (strip p cs).head? = some c := by rw [hs]; rfl
      have hmem : c ∈ cs := mem_of_mem_strip (by rw [hs]; exact List.mem_cons_self ..)
      exact absurd hhead (head?_strip c (h c hmem))

theorem trim_eq_empty_iff (s : String) : trim s = "" ↔ isBlankText s = true := by
  rw [trim, isBlankText, List.all_eq_true, ← strip_eq_nil_iff, String.ofList_eq_empty_iff]

end BuildTargets.Text
