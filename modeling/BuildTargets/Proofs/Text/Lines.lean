/-
  BuildTargets/Proofs/Text/Lines.lean
  ===================================
  **The lines of a text.**

  A text is one list of lines, whichever line ends it has (`Text.written_iff`), and
  lines that are written one after the other are found again (`Text.lines_joinWith`).
-/
import BuildTargets.Proofs.Path

namespace BuildTargets

namespace Text

/-- A text that is written line by line.  A line ends in a line feed, or in a carriage
    return and a line feed; the last one may do without if there is anything on it. -/
inductive Written : List (List Char) → List Char → Prop
  | nil : Written [] []
  | last {line : List Char} (hne : line ≠ []) (hline : '\n' ∉ line) : Written [line] line
  | lf {line rest : List Char} {lines : List (List Char)} (hline : '\n' ∉ line)
      (hend : line.getLast? ≠ some '\r') (hrest : Written lines rest) :
      Written (line :: lines) (line ++ '\n' :: rest)
  | crlf {line rest : List Char} {lines : List (List Char)} (hline : '\n' ∉ line)
      (hrest : Written lines rest) : Written (line :: lines) (line ++ '\r' :: '\n' :: rest)

variable {line cs : List Char} {ls : List (List Char)}

theorem closeLines_cons (hne : ls ≠ []) :
    closeLines (line :: ls) = dropReturn line :: closeLines ls := by
  cases ls with
  | nil => exact absurd rfl hne
  | cons next rest => rfl

theorem lines_append_lf (hline : '\n' ∉ line) (rest : List Char) :
    lines (line ++ '\n' :: rest) = dropReturn line :: lines rest := by
  rw [lines, split_append_sep hline, closeLines_cons (split_ne_nil '\n' rest), lines]

theorem dropReturn_eq_self (h : line.getLast? ≠ some '\r') : dropReturn line = line := if_neg h

theorem dropReturn_concat (line : List Char) : dropReturn (line ++ ['\r']) = line := by
  simp [dropReturn]

/-- Fields that hold no line feed, written with line feeds between them. -/
theorem written_joinWith (hls : ∀ l ∈ ls, '\n' ∉ l) :
    Written (closeLines ls) (joinWith '\n' ls) := by
  induction ls with
  | nil => exact .nil
  | cons line rest ih =>
    have hline : '\n' ∉ line := hls line (List.mem_cons_self ..)
    cases rest with
    | nil =>
      simp only [closeLines, joinWith]
      split
      · next hempty => exact hempty ▸ .nil
      · next hne => exact .last hne hline
    | cons next more =>
      have hrest := ih fun l hl => hls l (List.mem_cons_of_mem _ hl)
      rw [closeLines_cons (List.cons_ne_nil next more)]
      show Written _ (line ++ '\n' :: joinWith '\n' (next :: more))
      by_cases hend : line.getLast? = some '\r'
      · obtain ⟨short, rfl⟩ := List.getLast?_eq_some_iff.mp hend
        rw [dropReturn_concat, List.append_assoc]
        exact .crlf (fun h => hline (List.mem_append_left _ h)) hrest
      · rw [dropReturn_eq_self hend]
        exact .lf hline hend hrest

/-- Every text is written from its lines, and from no others. -/
theorem written_iff : Written ls cs ↔ lines cs = ls := by
  constructor
  · intro h
    induction h with
    | nil => rfl
    | last hne hline => rw [lines, split_eq_singleton hline, closeLines, if_neg hne]
    | lf hline hend _ ih => rw [lines_append_lf hline, dropReturn_eq_self hend, ih]
    | @crlf line rest _ hline _ ih =>
      have hreturn : '\n' ∉ line ++ ['\r'] := by
        rw [List.mem_append, not_or]
        exact ⟨hline, by decide⟩
      have happend : line ++ '\r' :: '\n' :: rest = (line ++ ['\r']) ++ '\n' :: rest := by
        rw [List.append_assoc]
        rfl
      rw [happend, lines_append_lf hreturn, dropReturn_concat, ih]
  · rintro rfl
    have hfree : ∀ l ∈ split '\n' cs, '\n' ∉ l := fun l hl => sep_not_mem_of_mem_split hl
    have h := written_joinWith hfree
    rwa [joinWith_split] at h

/-- Lines that are written with line feeds between them are found again. -/
theorem lines_joinWith (hne : ∀ l ∈ ls, l ≠ []) (hls : ∀ l ∈ ls, '\n' ∉ l)
    (hend : ∀ l ∈ ls, l.getLast? ≠ some '\r') : lines (joinWith '\n' ls) = ls := by
  induction ls with
  | nil => rfl
  | cons line rest ih =>
    have hline := hls line List.mem_cons_self
    by_cases hrest : rest = []
    · subst hrest
      exact written_iff.mp (.last (hne line List.mem_cons_self) hline)
    · rw [joinWith_cons hrest, lines_append_lf hline,
        dropReturn_eq_self (hend line List.mem_cons_self),
        ih (fun l hl => hne l (List.mem_cons_of_mem _ hl))
          (fun l hl => hls l (List.mem_cons_of_mem _ hl))
          fun l hl => hend l (List.mem_cons_of_mem _ hl)]

end Text

end BuildTargets
