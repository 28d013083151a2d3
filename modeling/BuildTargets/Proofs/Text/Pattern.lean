/-
  BuildTargets/Proofs/Text/Pattern.lean
  =====================================
  **Patterns, and what they capture.**

  A pattern is matched from the left, and where it can be matched in several ways
  there is a preferred one: the leftmost start, and then as many characters for each
  repetition as the rest of the pattern allows.  `Pattern.ways` lists all ways in the
  order of preference; the first of them counts.

  A repetition that nothing follows but the end of the text matches all of the text or
  not at all (`ways_toEnd`), and the first way of a repetition is the longest run
  (`head?_runs`).
-/

namespace BuildTargets.Text

/-- What a text can be searched for. -/
inductive Pattern where
  /-- The start of the text. -/
  | start
  /-- The end of the text. -/
  | stop
  | one (p : Char → Bool)
  /-- Any number of characters of a class, rather more than less. -/
  | many (p : Char → Bool)
  | seq (first next : Pattern)
  /-- A pattern whose match is captured. -/
  | group (inner : Pattern)

/-- One way to match a pattern at some place of a text. -/
structure Way where
  taken : List Char
  captured : Option (List Char)
  rest : List Char
deriving DecidableEq, Repr

/-- The runs of a class at the start of a text with what follows each, the longest
    first. -/
def runs (p : Char → Bool) : List Char → List (List Char × List Char)
  | [] => [([], [])]
  | c :: cs =>
    (if p c then (runs p cs).map fun run => (c :: run.1, run.2) else []) ++ [([], c :: cs)]

namespace Pattern

/-- As many characters of a class as possible, but one at least. -/
def oneOrMore (p : Char → Bool) : Pattern := seq (one p) (many p)

/-- The ways to match a pattern where `cs` is what follows in the text, the preferred
    one first.  `atStart` tells whether nothing has gone before. -/
def ways : Pattern → (atStart : Bool) → (cs : List Char) → List Way
  | start, atStart, cs => if atStart then [⟨[], none, cs⟩] else []
  | stop, _, cs => if cs = [] then [⟨[], none, []⟩] else []
  | one _, _, [] => []
  | one p, _, c :: cs => if p c then [⟨[c], none, cs⟩] else []
  | many p, _, cs => (runs p cs).map fun run => ⟨run.1, none, run.2⟩
  | seq first next, atStart, cs => (first.ways atStart cs).flatMap fun w =>
      (next.ways (atStart && w.taken.isEmpty) w.rest).map fun v =>
        ⟨w.taken ++ v.taken, v.captured.or w.captured, v.rest⟩
  | group inner, atStart, cs => (inner.ways atStart cs).map fun w => { w with captured := w.taken }

/-- The preferred way to match a pattern anywhere in a text. -/
def search (a : Pattern) (atStart : Bool) : List Char → Option Way
  | [] => (a.ways atStart []).head?
  | c :: cs => (a.ways atStart (c :: cs)).head?.or (a.search false cs)

/-- What a pattern captures in a text. -/
def capture? (a : Pattern) (cs : List Char) : Option (List Char) :=
  (a.search true cs).bind (·.captured)

end Pattern

/-! ### Runs -/

variable {p q : Char → Bool} {cs : List Char}

theorem head?_runs (p : Char → Bool) (cs : List Char) :
    (runs p cs).head? = some (cs.takeWhile p, cs.dropWhile p) := by
  induction cs with
  | nil => rfl
  | cons c cs ih =>
    rw [runs, List.head?_append]
    by_cases hc : p c = true
    · simp [hc, ih]
    · simp [hc]

/-- What follows the longest run ends what follows any other. -/
theorem suffix_of_mem_runs {run : List Char × List Char} (h : run ∈ runs p cs) :
    cs.dropWhile p <:+ run.2 := by
  induction cs generalizing run with
  | nil => exact List.nil_suffix
  | cons c cs ih =>
    rw [runs, List.mem_append, List.mem_singleton] at h
    rcases h with h | rfl
    · split at h
      · next hc =>
        obtain ⟨shorter, hmem, rfl⟩ := List.mem_map.mp h
        have hsuffix := ih hmem
        rwa [List.dropWhile_cons, if_pos hc]
      · cases h
    · exact List.dropWhile_suffix p

/-- Only one run reaches the end of the text, if any does. -/
theorem filter_runs (q : Char → Bool) (cs : List Char) :
    (runs q cs).filter (·.2 = []) = if cs.all q then [(cs, [])] else [] := by
  induction cs with
  | nil => rfl
  | cons c cs ih =>
    rw [runs, List.filter_append, List.all_cons]
    by_cases hc : q c = true
    · rw [if_pos hc, List.filter_map, hc, Bool.true_and]
      simp only [Function.comp_def, ih]
      split <;> simp
    · simp [hc]

namespace Pattern

/-! ### Ways -/

/-- Up to the end of the text there is one way or none. -/
theorem ways_toEnd (q : Char → Bool) (atStart : Bool) (cs : List Char) :
    (seq (many q) stop).ways atStart cs = if cs.all q then [⟨cs, none, []⟩] else [] := by
  have hfilter : (seq (many q) stop).ways atStart cs =
      ((runs q cs).filter (·.2 = [])).map fun run => ⟨run.1, none, run.2⟩ := by
    simp only [ways]
    induction runs q cs with
    | nil => rfl
    | cons run rest ih =>
      rw [List.map_cons, List.flatMap_cons, ih]
      by_cases hrun : run.2 = [] <;> simp [hrun]
  rw [hfilter, filter_runs]
  split <;> rfl

theorem ways_group_oneOrMore (p : Char → Bool) (atStart : Bool) (cs : List Char) :
    (group (oneOrMore p)).ways atStart cs =
      match cs with
      | [] => []
      | c :: cs =>
        if p c then (runs p cs).map fun run => ⟨c :: run.1, some (c :: run.1), run.2⟩ else [] := by
  cases cs with
  | nil => rfl
  | cons c cs =>
    by_cases hc : p c = true
    · simp [oneOrMore, ways, hc]
    · simp [oneOrMore, ways, hc]

/-- A pattern that asks for the start is not found further on. -/
theorem search_later (a : Pattern) (cs : List Char) : (seq start a).search false cs = none := by
  induction cs with
  | nil => rfl
  | cons c cs ih =>
    rw [search, ih]
    rfl

theorem search_start (a : Pattern) (cs : List Char) :
    (seq start a).search true cs = (a.ways true cs).head? := by
  have hways : (seq start a).ways true cs = a.ways true cs := by
    simp [ways]
  cases cs with
  | nil => rw [search, hways]
  | cons c cs => rw [search, hways, search_later, Option.or_none]

/-- At the start of the text, the longest run of a class that is not empty is captured,
    if what follows it is all of another class. -/
theorem capture?_oneOrMore (p q : Char → Bool) (cs : List Char) :
    (seq start (seq (group (oneOrMore p)) (seq (many q) stop))).capture? cs =
      if cs.takeWhile p ≠ [] ∧ (cs.dropWhile p).all q then some (cs.takeWhile p) else none := by
  rw [capture?, search_start, ways, ways_group_oneOrMore]
  cases cs with
  | nil => rfl
  | cons c cs =>
    by_cases hc : p c = true
    · simp only [hc, if_true, ways_toEnd, List.flatMap_map, List.head?_flatMap,
        List.takeWhile_cons, List.dropWhile_cons]
      by_cases hrest : (cs.dropWhile p).all q = true
      · obtain ⟨others, hruns⟩ := List.head?_eq_some_iff.mp (head?_runs p cs)
        rw [hruns, List.findSome?_cons, hrest]
        simp
      · have hnone (run : List Char × List Char) (hrun : run ∈ runs p cs) :
            run.2.all q = false := by
          rw [← Bool.not_eq_true, List.all_eq_true]
          intro hall
          refine hrest (List.all_eq_true.mpr fun d hd => hall d ?_)
          exact (suffix_of_mem_runs hrun).mem hd
        rw [List.findSome?_eq_none_iff.mpr]
        · simp [hrest]
        · intro run hrun
          rw [hnone run hrun]
          rfl
    · simp [hc]

end Pattern

end BuildTargets.Text
