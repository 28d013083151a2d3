/-
  BuildTargets/Text/Split.lean
  ============================
  **Cutting a text at every occurrence of one character, and into lines.**

  Paths are cut at `/`, settings at `=`, files at line feeds.  `split` keeps
  every field, empty ones included, so that joining the fields again gives the
  text back (`joinWith_split`); it cuts bytes as it cuts characters.  `lines`
  takes the final empty field and one carriage return per line away.
-/

namespace BuildTargets.Text

/-! ### Fields -/

section Fields

variable {α : Type} [DecidableEq α]

/-- The fields between the occurrences of `sep`; there is always at least
    one. -/
def split (sep : α) : List α → List (List α)
  | [] => [[]]
  | c :: cs =>
    if c = sep then [] :: split sep cs
    else match split sep cs with
      | [] => [[c]]
      | field :: fields => (c :: field) :: fields

/-- The fields written one after the other with `sep` between them. -/
def joinWith {α : Type} (sep : α) : List (List α) → List α
  | [] => []
  | [field] => field
  | field :: fields => field ++ sep :: joinWith sep fields

theorem split_ne_nil (sep : α) (cs : List α) : split sep cs ≠ [] := by
  cases cs with
  | nil => simp [split]
  | cons c cs =>
    simp only [split]
    split
    · simp
    · split <;> simp

theorem split_cons_sep (sep : α) (cs : List α) :
    split sep (sep :: cs) = [] :: split sep cs := by
  simp [split]

theorem split_cons_ne {sep c : α} (h : c ≠ sep) (cs : List α) :
    ∃ field fields, split sep cs = field :: fields ∧
      split sep (c :: cs) = (c :: field) :: fields := by
  cases hs : split sep cs with
  | nil => exact absurd hs (split_ne_nil sep cs)
  | cons field fields => exact ⟨field, fields, rfl, by simp [split, h, hs]⟩

/-- Nothing is lost by cutting. -/
theorem joinWith_split (sep : α) (cs : List α) : joinWith sep (split sep cs) = cs := by
  induction cs with
  | nil => rfl
  | cons c cs ih =>
    by_cases h : c = sep
    · subst h
      rw [split_cons_sep]
      cases hs : split c cs with
      | nil => exact absurd hs (split_ne_nil c cs)
      | cons field fields => rw [hs] at ih; simp [joinWith, ih]
    · obtain ⟨field, fields, hs, hc⟩ := split_cons_ne h cs
      rw [hc]
      rw [hs] at ih
      cases fields with
      | nil => simpa [joinWith] using ih
      | cons g gs => simp only [joinWith, List.cons_append] at ih ⊢; rw [ih]

/-- No field holds the character the text was cut at. -/
theorem sep_not_mem_of_mem_split {sep : α} {cs field : List α} (h : field ∈ split sep cs) :
    sep ∉ field := by
  induction cs generalizing field with
  | nil => simp [split] at h; simp [h]
  | cons c cs ih =>
    by_cases hc : c = sep
    · subst hc
      rw [split_cons_sep] at h
      rcases List.mem_cons.mp h with rfl | h
      · simp
      · exact ih h
    · obtain ⟨g, gs, hs, he⟩ := split_cons_ne hc cs
      rw [he] at h
      rcases List.mem_cons.mp h with rfl | h
      · have hg : sep ∉ g := ih (by simp [hs])
        simp only [List.mem_cons, not_or]
        exact ⟨fun e => hc e.symm, hg⟩
      · exact ih (by simp [hs, h])

/-- A text without the separator is one field. -/
theorem split_eq_singleton {sep : α} {cs : List α} (h : sep ∉ cs) : split sep cs = [cs] := by
  induction cs with
  | nil => rfl
  | cons c cs ih =>
    simp only [List.mem_cons, not_or] at h
    obtain ⟨g, gs, hs, he⟩ := split_cons_ne (Ne.symm h.1) cs
    rw [ih h.2] at hs
    simp only [List.cons.injEq] at hs
    rw [he, ← hs.1, ← hs.2]

/-- A field without the separator is cut off whole. -/
theorem split_append_sep {sep : α} {field : List α} (h : sep ∉ field) (rest : List α) :
    split sep (field ++ sep :: rest) = field :: split sep rest := by
  induction field with
  | nil => exact split_cons_sep sep rest
  | cons c field ih =>
    simp only [List.mem_cons, not_or] at h
    obtain ⟨g, gs, hs, he⟩ := split_cons_ne (Ne.symm h.1) (field ++ sep :: rest)
    rw [ih h.2] at hs
    simp only [List.cons.injEq] at hs
    rw [List.cons_append, he, ← hs.1, ← hs.2]

end Fields

/-! ### Lines -/

/-- A line without the carriage return it may end in. -/
def dropReturn (line : List Char) : List Char :=
  if line.getLast? = some '\r' then line.dropLast else line

/-- Takes the carriage returns at line ends, and what follows the last line
    feed if that is nothing, away. -/
def closeLines : List (List Char) → List (List Char)
  | [] => []
  | [last] => if last = [] then [] else [last]
  | line :: lines => dropReturn line :: closeLines lines

/-- The lines of a text.  A line feed ends a line, one carriage return before
    it belongs to the line end, and text after the last line feed is a line of
    its own as it stands. -/
def lines (cs : List Char) : List (List Char) := closeLines (split '\n' cs)

end BuildTargets.Text
