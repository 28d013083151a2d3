/-
  BuildTargets/Proofs/Client/Diagnosis.lean
  =========================================
  **What is told of a client that has failed.**

  A failed client explains itself on its error output.  A query passes its words on,
  whatever bytes they are (`run_query`).  A request has them read strictly, so they
  are passed on if and only if the bytes spell a text; otherwise nothing is told but
  how the process ended (`detail_eq_diagnosis_iff`).

  The difference can be seen because bytes that spell no text are not blank when they
  are read lossily: each ill-formed stretch leaves a replacement character
  (`replacement_mem_words`), and no exit status holds one.
-/
import BuildTargets.Proofs.Client
import BuildTargets.Proofs.Text.Utf8

namespace BuildTargets

/-! ### The words of a client -/

namespace Text

/-- What cannot be read strictly is not read lossily without a replacement. -/
theorem replacement_mem_decodeLossy {bytes : List UInt8} (h : decode? bytes = none) :
    replacement ∈ (decodeLossy bytes).toList := by
  rw [decodeLossy, String.toList_ofList]
  rw [decode?, Option.map_eq_none_iff] at h
  generalize pieces bytes = ps at h
  induction ps with
  | nil => cases h
  | cons p ps ih =>
    cases p with
    | none => exact List.mem_cons_self ..
    | some c => exact List.mem_cons_of_mem _ (ih (Option.map_eq_none_iff.mp h))

end Text

namespace ExitStatus

/-- The text of an exit status is plain. -/
theorem replacement_not_mem_text (status : ExitStatus) :
    Text.replacement ∉ status.text.toList := by
  have hnumber (n : Nat) : Text.replacement ∉ (toString n).toList := by
    intro h
    have hdigits : Text.replacement ∈ Nat.toDigits 10 n := by simpa [Nat.repr] using h
    exact absurd (Nat.isDigit_of_mem_toDigits (by decide) (by decide) hdigits) (by decide)
  cases status with
  | code n =>
    simp only [text, String.toList_append, List.mem_append, not_or]
    exact ⟨by decide, hnumber n⟩
  | signal n =>
    simp only [text]
    split
    · next name h =>
      have hname : Text.replacement ∉ name.toList := by
        unfold signalName? at h
        split at h <;> cases h <;> decide
      simp only [String.toList_append, List.mem_append, not_or]
      exact ⟨⟨⟨⟨by decide, hnumber n⟩, by decide⟩, hname⟩, by decide⟩
    · simp only [String.toList_append, List.mem_append, not_or]
      exact ⟨by decide, hnumber n⟩

end ExitStatus

namespace Client

/-- What a client says on its error output, as it can be shown. -/
def words (run : ClientRun) : String := Text.trim (Text.decodeLossy run.stderr)

/-- What is told of a process that has said nothing. -/
def exitText (run : ClientRun) : String := "lxc exited with " ++ run.status.text

/-- What there is to tell of a failed client: its words, or else how it ended. -/
def diagnosis (run : ClientRun) : String := if words run = "" then exitText run else words run

variable {run : ClientRun}

theorem words_eq_empty_iff :
    words run = "" ↔ Text.isBlankText (Text.decodeLossy run.stderr) = true :=
  Text.trim_eq_empty_iff _

theorem replacement_mem_words (h : Text.decode? run.stderr = none) :
    Text.replacement ∈ (words run).toList := by
  rw [words, Text.trim, String.toList_ofList]
  exact Text.mem_strip (Text.replacement_mem_decodeLossy h) (by decide)

/-- What waiting for a failed client tells. -/
def detail (run : ClientRun) : String :=
  match Text.decode? run.stderr with
  | some _ => diagnosis run
  | none => exitText run

theorem outcome_eq_detail (h : run.status.isSuccess = false) :
    outcome run = .failure (detail run) := by
  unfold outcome detail
  rw [h]
  cases hread : Text.decode? run.stderr with
  | none => rfl
  | some said =>
    have hlossy : Text.decodeLossy run.stderr = said := Text.decodeLossy_of_decode? hread
    simp only [Bool.false_eq_true, if_false, Option.getD_some, diagnosis]
    by_cases hblank : Text.isBlankText said = true
    · have hwords : words run = "" := words_eq_empty_iff.mpr (by rw [hlossy, hblank])
      rw [if_pos hblank, if_pos hwords]
      rfl
    · have hwords : words run ≠ "" := by
        rw [Ne, words_eq_empty_iff, hlossy]
        exact hblank
      rw [if_neg hblank, if_neg hwords, words, hlossy]

/-- The words of a failed client are passed on if and only if they spell a text. -/
theorem detail_eq_diagnosis_iff : detail run = diagnosis run ↔ ∃ s, Text.encode s = run.stderr := by
  simp only [← Text.decode?_eq_some_iff, ← Option.isSome_iff_exists]
  unfold detail
  cases hread : Text.decode? run.stderr with
  | some said => simp
  | none =>
    have hmem := replacement_mem_words hread
    have hwords : words run ≠ "" := fun h => by simp [h] at hmem
    have hplain : Text.replacement ∉ (exitText run).toList := by
      rw [exitText, String.toList_append, List.mem_append, not_or]
      exact ⟨by decide, run.status.replacement_not_mem_text⟩
    simp only [diagnosis, if_neg hwords, Option.isSome_none, Bool.false_eq_true, iff_false]
    intro heq
    rw [← heq] at hmem
    exact hplain hmem

/-! ### What requests and queries tell -/

variable {c : Client}

/-- The wait is not over before the process is. -/
def IsHeard (run : ClientRun) (patience : Patience) : Prop :=
  run.outlasts = true → patience.cancelled = false ∧ patience.limit = none

/-- The client once an operation has been waited for. -/
def forgetting (c : Client) (op : Operation) : Client :=
  { c with pending := c.pending.erase op.id }

theorem run_finish {op : Operation} {patience : Patience} (hheard : IsHeard run patience)
    (hpending : c.pending.get? op.id = some run) :
    (finish op patience).run c = .ok (outcome run) (c.forgetting op) := by
  unfold finish
  rw [EStateM.run_bind, EStateM.run_get]
  dsimp only
  rw [hpending]
  dsimp only
  rw [EStateM.run_bind, EStateM.run_set]
  cases houtlasts : run.outlasts with
  | false => rfl
  | true =>
    obtain ⟨hcancelled, hlimit⟩ := hheard houtlasts
    rw [hcancelled, hlimit]
    rfl

theorem run_perform_of_failed {request : Request} {patience : Patience}
    (hheard : IsHeard run patience) (hstart : c.start request.arguments = .ok run)
    (hfailed : run.status.isSuccess = false) :
    (Service.perform request patience).run c =
      .error (.operationFailed request.description (detail run)) (c.settled request) := by
  unfold Service.perform Service.settle
  rw [EStateM.run_bind, service_submit, run_accept, hstart]
  dsimp only
  rw [EStateM.run_bind, service_await, run_finish hheard (Dict.get?_insert_self ..),
    outcome_eq_detail hfailed, forgetting, Dict.erase_insert]
  rfl

theorem run_query_of_failed {arguments : List String} (hstart : c.start arguments = .ok run)
    (hfailed : run.status.isSuccess = false) :
    (query arguments).run c = .error (.unreachable (c.program ++ " " ++
      " ".intercalate arguments ++ " failed: " ++ words run)) (c.invoked arguments) := by
  unfold query
  rw [EStateM.run_bind, run_invoke, hstart]
  dsimp only
  rw [hfailed]
  rfl

/-- What a failed request tells of its client is what there is to tell, if and only if the
    client has written text; a query tells the words of the client in any case. -/
theorem failure_told (run : ClientRun) (hfailed : run.status.isSuccess = false) :
    ∃ told, (told = diagnosis run ↔ ∃ s, Text.encode s = run.stderr) ∧
      ((∀ s, Text.encode s ≠ run.stderr) → told = exitText run) ∧
      (∀ (c : Client) (op : Operation) (patience : Patience), IsHeard run patience →
        c.pending.get? op.id = some run →
        (finish op patience).run c = .ok (.failure told) (c.forgetting op)) ∧
      (∀ (c : Client) (request : Request) (patience : Patience), IsHeard run patience →
        c.start request.arguments = .ok run →
        (Service.perform request patience).run c =
          .error (.operationFailed request.description told) (c.settled request)) ∧
      ∀ (c : Client) (arguments : List String) (asked : ClientRun),
        c.start arguments = .ok asked → asked.status.isSuccess = false →
        asked.stderr = run.stderr →
        (query arguments).run c = .error (.unreachable (c.program ++ " " ++
          " ".intercalate arguments ++ " failed: " ++ words run)) (c.invoked arguments) := by
  refine ⟨detail run, detail_eq_diagnosis_iff, ?_, ?_, ?_, ?_⟩
  · intro hspells
    have hnone : Text.decode? run.stderr = none :=
      Option.eq_none_iff_forall_ne_some.mpr fun s hread =>
        hspells s (Text.decode?_eq_some_iff.mp hread)
    rw [detail, hnone]
  · intro c op patience hheard hpending
    rw [run_finish hheard hpending, outcome_eq_detail hfailed]
  · intro c request patience hheard hstart
    exact run_perform_of_failed hheard hstart hfailed
  · intro c arguments asked hstart hasked hsame
    have hwords : words asked = words run := by rw [words, words, hsame]
    rw [run_query_of_failed hstart hasked, hwords]

/-- A client that fails whatever it is started for, and says the same each time. -/
def complaining (stderr : List UInt8) : Client where
  program := "lxc"
  launch := fun _ _ _ => .ok { stderr := stderr, status := .code 1 }

/-- The words are told without the blanks around them. -/
theorem failure_told_missing_container :
    let run : ClientRun := { stderr := Text.encode "Error: not found\n", status := .code 1 }
    let c := complaining run.stderr
    run.status.isSuccess = false ∧ IsHeard run {} ∧ c.start ["delete", "c"] = .ok run ∧
      c.start listArguments = .ok run ∧
      (Service.perform (.delete "c") {}).run c =
        .error (.operationFailed "delete c" "Error: not found") (c.settled (.delete "c")) ∧
      (query listArguments).run c =
        .error (.unreachable "lxc list --format json failed: Error: not found")
          (c.invoked listArguments) := by
  intro run c
  have hheard : IsHeard run {} := fun _ => ⟨rfl, rfl⟩
  have hdelete : c.start ["delete", "c"] = .ok run := by decide +kernel
  have hlist : c.start listArguments = .ok run := by decide +kernel
  have hwords : words run = "Error: not found" := by decide +kernel
  obtain ⟨told, htold, -, -, hperform, hquery⟩ := failure_told run rfl
  have hspells : ∃ s, Text.encode s = run.stderr := ⟨"Error: not found\n", rfl⟩
  have hsaid : told = "Error: not found" := by
    rw [htold.mpr hspells, diagnosis, hwords, if_neg (by decide)]
  refine ⟨rfl, hheard, hdelete, hlist, ?_, ?_⟩
  · rw [hperform c (.delete "c") {} hheard hdelete, hsaid]
    rfl
  · rw [hquery c listArguments run hlist rfl rfl, hwords]
    rfl

/-- Words that are no text are not told by a request, but by a query. -/
theorem garbled_words_lost :
    let run : ClientRun := { stderr := [0x6e, 0x6f, 0xff], status := .code 1 }
    let c := complaining run.stderr
    let wait : Action Client Outcome := accept (.delete "c") >>= (finish · {})
    diagnosis run = "no\uFFFD" ∧
      resultOf (wait.run c) = .ok (.failure "lxc exited with exit status: 1") ∧
      resultOf ((query listArguments).run c) =
        .error (.unreachable "lxc list --format json failed: no\uFFFD") := by
  decide +kernel

end Client

end BuildTargets
