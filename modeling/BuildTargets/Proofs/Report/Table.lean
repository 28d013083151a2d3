/-
  BuildTargets/Proofs/Report/Table.lean
  =====================================
  **The columns of the table of targets.**

  Under its heading the table has one line for each target (`Report.lines_table`), and a
  line is its three fields with blanks between them.  The second column starts where
  the longest name leaves room, in every line.  The third starts fourteen characters
  further on, unless an architecture is too long for the second one: then it is pushed
  to the right in this line, by what is too much (`Report.table_columns`).
-/
import BuildTargets.Proofs.Text.Lines
import BuildTargets.Report
import Mathlib.Data.List.Forall2

namespace BuildTargets

namespace Text

variable {sep : Char} {lines : List (List Char)}

/-- What ends with a separator each time is written with separators between and one at the
    end. -/
theorem flatMap_concat (hne : lines ≠ []) :
    lines.flatMap (· ++ [sep]) = joinWith sep lines ++ [sep] := by
  induction lines with
  | nil => exact absurd rfl hne
  | cons line rest ih =>
    by_cases hrest : rest = []
    · subst hrest
      simp [joinWith]
    · rw [List.flatMap_cons, ih hrest, joinWith_cons hrest]
      simp

/-- What is written line by line ends as its last line does. -/
theorem getLast?_joinWith {line : List Char} (hlast : lines.getLast? = some line)
    (hne : line ≠ []) : (joinWith sep lines).getLast? = line.getLast? := by
  obtain ⟨front, rfl⟩ := List.getLast?_eq_some_iff.mp hlast
  by_cases hfront : front = []
  · subst hfront
    rfl
  · rw [joinWith_concat hfront, List.getLast?_append, List.getLast?_cons_of_ne_nil hne,
      List.getLast?_eq_some_getLast hne]
    rfl

end Text

namespace Report

open Text (isBlank)

/-! ### Cells -/

/-- A text that can be told from the blanks around it. -/
structure IsCell (field : String) : Prop where
  ne_empty : field ≠ ""
  no_blank : ∀ c ∈ field.toList, isBlank c = false

/-- A target that can be read off a line of the table. -/
structure IsPlain (t : Target) : Prop where
  name : IsCell t.name
  architecture : IsCell t.architecture
  framework : IsCell t.framework

/-- The heading of the table, as if it were a target. -/
def heading : Target := ⟨"NAME", "ARCHITECTURE", "FRAMEWORK"⟩

/-- A line with the fields of a target, of which the second one and the third one start at
    some positions, after blanks. -/
def IsRow (t : Target) (second third : Nat) (line : List Char) : Prop :=
  ∃ gap gap', 0 < gap ∧ 0 < gap' ∧
    line = t.name.toList ++ List.replicate gap ' ' ++
      (t.architecture.toList ++ List.replicate gap' ' ' ++ t.framework.toList) ∧
    second = t.name.length + gap ∧ third = second + t.architecture.length + gap'

/-- What stands in a line at a position, up to the next blank. -/
def cellAt (line : List Char) (position : Nat) : String :=
  String.ofList ((line.drop position).takeWhile (!isBlank ·))

variable {t : Target} {ts : List Target} {line : List Char} {second third : Nat}

instance (field : String) : Decidable (IsCell field) :=
  decidable_of_iff (field ≠ "" ∧ field.toList.any isBlank = false)
    ⟨fun ⟨h₁, h₂⟩ => ⟨h₁, fun c hc => by simpa using List.any_eq_false.mp h₂ c hc⟩,
      fun ⟨h₁, h₂⟩ => ⟨h₁, List.any_eq_false.mpr fun c hc => by simp [h₂ c hc]⟩⟩

instance (t : Target) : Decidable (IsPlain t) :=
  decidable_of_iff (IsCell t.name ∧ IsCell t.architecture ∧ IsCell t.framework)
    ⟨fun ⟨h₁, h₂, h₃⟩ => ⟨h₁, h₂, h₃⟩, fun ⟨h₁, h₂, h₃⟩ => ⟨h₁, h₂, h₃⟩⟩

theorem isPlain_heading : IsPlain heading := by decide

theorem IsCell.takeWhile {field : String} (h : IsCell field) {rest : List Char}
    (hrest : ∀ c, rest.head? = some c → isBlank c = true) :
    (field.toList ++ rest).takeWhile (!isBlank ·) = field.toList := by
  have hfield : ∀ c ∈ field.toList, (!isBlank c) = true := fun c hc => by simp [h.no_blank c hc]
  rw [List.takeWhile_append_of_pos hfield]
  cases rest with
  | nil => simp
  | cons c rest => simp [hrest c rfl]

/-- A field is read where its column starts. -/
theorem IsCell.cellAt_eq {field : String} (h : IsCell field) (front : List Char)
    {rest : List Char} (hrest : ∀ c, rest.head? = some c → isBlank c = true)
    {position : Nat} (hposition : front.length = position) :
    cellAt (front ++ (field.toList ++ rest)) position = field := by
  rw [cellAt, ← hposition, List.drop_left, h.takeWhile hrest, String.ofList_toList]

theorem head?_replicate_blank {gap : Nat} {rest : List Char} (hgap : 0 < gap) :
    ∀ c, (List.replicate gap ' ' ++ rest).head? = some c → isBlank c = true := by
  intro c hc
  obtain ⟨n, rfl⟩ : ∃ n, gap = n + 1 := ⟨gap - 1, by omega⟩
  rw [List.replicate_succ, List.cons_append, List.head?_cons, Option.some.injEq] at hc
  rw [← hc]
  decide

/-- The fields of a line are read from their columns. -/
theorem IsRow.cells (h : IsRow t second third line) (ht : IsPlain t) :
    cellAt line 0 = t.name ∧ cellAt line second = t.architecture ∧
      cellAt line third = t.framework := by
  obtain ⟨gap, gap', hgap, hgap', rfl, rfl, rfl⟩ := h
  refine ⟨?_, ?_, ?_⟩
  · rw [List.append_assoc]
    exact ht.name.cellAt_eq [] (head?_replicate_blank hgap) rfl
  · rw [List.append_assoc t.architecture.toList]
    exact ht.architecture.cellAt_eq _ (head?_replicate_blank hgap') (by simp [String.length_toList])
  · rw [← List.append_nil t.framework.toList, ← List.append_assoc]
    exact ht.framework.cellAt_eq _ (by simp) (by simp [String.length_toList]; omega)

/-- The third column is the last one. -/
theorem IsRow.length_eq (h : IsRow t second third line) :
    line.length = third + t.framework.length := by
  obtain ⟨gap, gap', -, -, rfl, rfl, rfl⟩ := h
  simp [String.length_toList]
  omega

/-! ### Lines -/

/-- The line of a target, without its end. -/
def rowLine (width : Nat) (t : Target) : List Char :=
  t.name.toList ++ List.replicate (width - t.name.length + 2) ' ' ++
    (t.architecture.toList ++ List.replicate (architectureWidth - t.architecture.length + 2) ' ' ++
      t.framework.toList)

theorem toList_row (width : Nat) (t : Target) :
    (row width t.name t.architecture t.framework).toList = rowLine width t ++ ['\n'] := by
  simp [row, pad, rowLine, List.replicate_succ']

theorem isRow_rowLine {width : Nat} (hwidth : t.name.length ≤ width) :
    IsRow t (width + 2)
      (width + 2 + architectureWidth + 2 + (t.architecture.length - architectureWidth))
      (rowLine width t) :=
  ⟨width - t.name.length + 2, architectureWidth - t.architecture.length + 2, by omega, by omega,
    rfl, by omega, by omega⟩

theorem getLast?_rowLine (width : Nat) (ht : IsPlain t) :
    ∃ c, (rowLine width t).getLast? = some c ∧ isBlank c = false := by
  have hne : t.framework.toList ≠ [] := by
    rw [Ne, String.toList_eq_nil_iff]
    exact ht.framework.ne_empty
  refine ⟨t.framework.toList.getLast hne, ?_, ht.framework.no_blank _ (List.getLast_mem hne)⟩
  rw [rowLine, List.getLast?_append, List.getLast?_append, List.getLast?_eq_some_getLast hne]
  rfl

theorem not_mem_rowLine (width : Nat) (ht : IsPlain t) {c : Char} (hc : isBlank c = true)
    (hspace : c ≠ ' ') : c ∉ rowLine width t := by
  have hcell {field : String} (hfield : IsCell field) : c ∉ field.toList := fun hmem => by
    rw [hfield.no_blank c hmem] at hc
    cases hc
  simp [rowLine, hcell ht.name, hcell ht.architecture, hcell ht.framework, hspace]

/-- The name column has room for every name. -/
theorem length_le_nameWidth (ht : t ∈ heading :: ts) : t.name.length ≤ nameWidth ts := by
  have hfold (ts : List Target) (width : Nat) :
      width ≤ ts.foldl (fun width t => max width t.name.utf8ByteSize) width ∧
        ∀ t ∈ ts, t.name.utf8ByteSize ≤
          ts.foldl (fun width t => max width t.name.utf8ByteSize) width := by
    induction ts generalizing width with
    | nil => simp
    | cons u ts ih =>
      obtain ⟨hwidth, hnames⟩ := ih (max width u.name.utf8ByteSize)
      rw [List.foldl_cons]
      refine ⟨by omega, fun t ht => ?_⟩
      rcases List.mem_cons.mp ht with rfl | ht
      · omega
      · exact hnames t ht
  obtain ⟨hheading, hnames⟩ := hfold ts "NAME".length
  rcases List.mem_cons.mp ht with rfl | ht
  · exact hheading
  · have hbytes := Path.length_le_utf8ByteSize t.name.toList
    rw [String.ofList_toList, String.length_toList] at hbytes
    exact Nat.le_trans hbytes (hnames t ht)

/-- The lines of the table. -/
def rows (ts : List Target) : List (List Char) := (heading :: ts).map (rowLine (nameWidth ts))

/-- No line is broken, and none is empty or ends in a blank. -/
theorem line_of_mem_rows (hts : ∀ t ∈ ts, IsPlain t) (hline : line ∈ rows ts) :
    '\n' ∉ line ∧ ∃ c, line.getLast? = some c ∧ isBlank c = false := by
  obtain ⟨t, ht, rfl⟩ := List.mem_map.mp hline
  have hplain : IsPlain t := List.forall_mem_cons.mpr ⟨isPlain_heading, hts⟩ t ht
  exact ⟨not_mem_rowLine _ hplain (by decide) (by decide), getLast?_rowLine _ hplain⟩

theorem toList_table (hne : ts ≠ []) (hts : ∀ t ∈ ts, IsPlain t) :
    (table ts).toList = Text.joinWith '\n' (rows ts) := by
  have hrows : (row (nameWidth ts) "NAME" "ARCHITECTURE" "FRAMEWORK" ++
      String.join (ts.map fun t => row (nameWidth ts) t.name t.architecture t.framework)).toList =
      (rows ts).flatMap (· ++ ['\n']) := by
    have hheading := toList_row (nameWidth ts) heading
    rw [heading] at hheading
    simp [rows, List.flatMap_map, toList_row, hheading, heading]
  have hsome : rows ts ≠ [] := List.cons_ne_nil _ _
  have hline := List.getLast?_eq_some_getLast hsome
  obtain ⟨-, c, hc, hblank⟩ := line_of_mem_rows hts (List.mem_of_getLast? hline)
  have hempty : (rows ts).getLast hsome ≠ [] := by
    intro hnil
    rw [hnil] at hc
    cases hc
  rw [table, if_neg (by simpa using hne)]
  dsimp only
  have hbreak : ∀ d ∈ ['\n'], isBlank d = true := List.forall_mem_singleton.mpr (by decide)
  rw [Text.trimEnd, String.toList_ofList, hrows, Text.flatMap_concat hsome,
    Text.stripEnd_append_of_all hbreak, Text.stripEnd_eq_self]
  intro d hd
  rw [Text.getLast?_joinWith hline hempty, hc, Option.some.injEq] at hd
  rw [← hd, hblank]

/-- The table has a heading and a line for each target. -/
theorem lines_table (hne : ts ≠ []) (hts : ∀ t ∈ ts, IsPlain t) :
    Text.lines (table ts).toList = rows ts := by
  rw [toList_table hne hts, Text.lines_joinWith]
  · rintro line hline rfl
    obtain ⟨-, c, hc, -⟩ := line_of_mem_rows hts hline
    cases hc
  · exact fun line hline => (line_of_mem_rows hts hline).1
  · intro line hline hreturn
    obtain ⟨-, c, hc, hblank⟩ := line_of_mem_rows hts hline
    rw [hreturn, Option.some.injEq] at hc
    subst hc
    exact absurd hblank (by decide)

/-- The table of some targets is a table.  It has a heading and a line for each target, in
    their order.  The second column starts at one position in all lines, and so does the
    third in every line with an architecture that fits into the second; a longer one pushes
    it to the right by what is too much.  Every field is read where its column starts. -/
theorem table_columns (hne : ts ≠ []) (hts : ∀ t ∈ ts, IsPlain t) :
    ∃ second third, List.Forall₂
      (fun t line =>
        let start := third + (t.architecture.length - architectureWidth)
        IsRow t second start line ∧ cellAt line 0 = t.name ∧
          cellAt line second = t.architecture ∧ cellAt line start = t.framework)
      (heading :: ts) (Text.lines (text (.targets ts)).toList) := by
  refine ⟨nameWidth ts + 2, nameWidth ts + 2 + architectureWidth + 2, ?_⟩
  rw [text, lines_table hne hts, rows, List.forall₂_map_right_iff, List.forall₂_same]
  intro t ht
  have hplain : IsPlain t := List.forall_mem_cons.mpr ⟨isPlain_heading, hts⟩ t ht
  have hrow := isRow_rowLine (length_le_nameWidth ht)
  exact ⟨hrow, hrow.cells hplain⟩

/-- Names are measured in bytes, so that of the first target takes up more room than it
    needs; the architecture of the second one is two characters too long. -/
theorem table_columns_uneven :
    let ts : List Target := [⟨"gerät-ü", "i386", "f"⟩, ⟨"b", "kfreebsd-amd64", "f"⟩]
    ts ≠ [] ∧ (∀ t ∈ ts, IsPlain t) ∧
      text (.targets ts) = "NAME       ARCHITECTURE  FRAMEWORK\n" ++
        "gerät-ü    i386          f\n" ++
        "b          kfreebsd-amd64  f" ∧
      ∃ second third, IsRow ⟨"b", "kfreebsd-amd64", "f"⟩ second (third + 2)
        "b          kfreebsd-amd64  f".toList ∧
        cellAt "b          kfreebsd-amd64  f".toList (third + 2) = "f" := by
  intro ts
  have hne : ts ≠ [] := by decide
  have hts : ∀ t ∈ ts, IsPlain t := by decide +kernel
  have hlines : Text.lines (text (.targets ts)).toList =
      ["NAME       ARCHITECTURE  FRAMEWORK".toList, "gerät-ü    i386          f".toList,
        "b          kfreebsd-amd64  f".toList] := by
    decide +kernel
  obtain ⟨second, third, hrows⟩ := table_columns hne hts
  rw [hlines] at hrows
  obtain ⟨-, -, hlast, -⟩ := by simpa only [ts, List.forall₂_cons] using hrows
  exact ⟨hne, hts, by decide +kernel, second, third, hlast.1, hlast.2.2.2⟩

/-- An architecture of more than twelve characters takes the framework out of its column. -/
theorem framework_out_of_column :
    let ts : List Target := [⟨"b", "kfreebsd-amd64", "f"⟩]
    ts ≠ [] ∧ (∀ t ∈ ts, IsPlain t) ∧
      ¬ ∃ second third, List.Forall₂ (fun t line => IsRow t second third line) (heading :: ts)
        (Text.lines (text (.targets ts)).toList) := by
  intro ts
  have hlines : Text.lines (text (.targets ts)).toList =
      ["NAME  ARCHITECTURE  FRAMEWORK".toList, "b     kfreebsd-amd64  f".toList] := by
    decide +kernel
  refine ⟨by decide, by decide +kernel, ?_⟩
  rintro ⟨second, third, hrows⟩
  rw [hlines] at hrows
  obtain ⟨hheading, hrow, -⟩ := by simpa only [ts, List.forall₂_cons] using hrows
  -- the lines end at 29 and 23, after nine characters and one: that is not one column
  have hend : 29 = third + 9 := hheading.length_eq
  have hend' : 23 = third + 1 := hrow.length_eq
  omega

end Report

end BuildTargets
