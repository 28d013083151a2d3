/-
  BuildTargets/Proofs/Driver.lean
  ===============================
  **What the version of a driver says.**

  The version file is one line with blanks around it, and its leading digits name the
  driver.  They are read as they stand, neither shortened nor normalised, and are all
  that tells the directories of two drivers apart (`Driver.ofVersion?_exact`).

  The version is what the pattern `^([0-9]+).*$` captures (`Driver.ofVersion?_eq_capture`): no
  `.` matches a line feed, so a second line spoils the first.
-/
import BuildTargets.Proofs.Path.Components
import BuildTargets.Proofs.Text.Pattern
import BuildTargets.Repair.GraphicsDriver

namespace BuildTargets

namespace Text

variable {α : Type} {p : α → Bool} {cs core run : List α}

/-- `core` is what `cs` has between the items of a class at its ends. -/
structure IsCore (p : α → Bool) (cs core : List α) : Prop where
  around : ∃ front back, cs = front ++ core ++ back ∧ (∀ c ∈ front, p c = true) ∧
    ∀ c ∈ back, p c = true
  head : ∀ c, core.head? = some c → p c = false
  last : ∀ c, core.getLast? = some c → p c = false

theorem isCore_strip (p : α → Bool) (cs : List α) : IsCore p cs (strip p cs) where
  around := exists_strip p cs
  head c hc := by
    rw [← Bool.not_eq_true]
    exact fun h => head?_strip c h hc
  last c hc := by
    rw [← Bool.not_eq_true]
    exact fun h => getLast?_strip c h hc

/-- There is only one core. -/
theorem IsCore.strip_eq (h : IsCore p cs core) : strip p cs = core := by
  obtain ⟨front, back, rfl, hfront, hback⟩ := h.around
  by_cases hcore : core = []
  · subst hcore
    rw [strip_eq_nil_iff, List.append_nil]
    intro c hc
    exact (List.mem_append.mp hc).elim (hfront c) (hback c)
  · have hhead : ∀ c, (core ++ back).head? = some c → p c = false := fun c hc => by
      rw [List.head?_append, List.head?_eq_some_head hcore] at hc
      exact h.head c (by rw [List.head?_eq_some_head hcore]; exact hc)
    rw [strip, List.append_assoc, List.dropWhile_append_of_pos hfront, dropWhile_eq_self hhead,
      stripEnd_append_of_all hback, stripEnd_eq_self h.last]

/-- `run` is the longest start of `cs` with all items of a class. -/
structure IsLongestRun (p : α → Bool) (cs run : List α) : Prop where
  isStart : run <+: cs
  all : ∀ c ∈ run, p c = true
  longest : ∀ other, other <+: cs → (∀ c ∈ other, p c = true) → other <+: run

theorem isLongestRun_takeWhile (p : α → Bool) (cs : List α) :
    IsLongestRun p cs (cs.takeWhile p) where
  isStart := List.takeWhile_prefix p
  all := List.all_eq_true.mp List.all_takeWhile
  longest other hother hall := by
    obtain ⟨rest, rfl⟩ := hother
    rw [List.takeWhile_append_of_pos hall]
    exact List.prefix_append ..

theorem isLongestRun_iff : IsLongestRun p cs run ↔ run = cs.takeWhile p := by
  constructor
  · intro h
    have hmax := isLongestRun_takeWhile p cs
    exact (hmax.longest run h.isStart h.all).eq_of_length_le
      (h.longest _ hmax.isStart hmax.all).length_le
  · rintro rfl
    exact isLongestRun_takeWhile p cs

end Text

namespace Driver

open BuildTargets.Path (components isAbsolute)
open Text (IsCore IsLongestRun Pattern isBlank)

variable {text : String} {t : List Char} {driver : Driver}

/-- A line that starts with a number. -/
def versionPattern : Pattern :=
  .seq .start (.seq (.group (.oneOrMore Char.isDigit)) (.seq (.many (· ≠ '\n')) .stop))

/-- A line feed is not passed by way of the digits. -/
theorem all_dropWhile_iff (t : List Char) :
    (t.dropWhile Char.isDigit).all (· ≠ '\n') = true ↔ '\n' ∉ t := by
  have hdigits : '\n' ∉ t.takeWhile Char.isDigit := fun h =>
    absurd (List.all_eq_true.mp List.all_takeWhile _ h) (by decide)
  have hsplit : '\n' ∈ t ↔ '\n' ∈ t.dropWhile Char.isDigit := by
    have hmem : '\n' ∈ t.takeWhile Char.isDigit ++ t.dropWhile Char.isDigit ↔
        '\n' ∈ t.dropWhile Char.isDigit := by
      rw [List.mem_append, or_iff_right hdigits]
    rwa [List.takeWhile_append_dropWhile] at hmem
  rw [hsplit, List.all_eq_true]
  constructor
  · intro hall hmem
    simpa using hall _ hmem
  · intro hmem c hc
    rw [decide_eq_true_iff]
    rintro rfl
    exact hmem hc

theorem ofVersion?_eq_ite (ht : IsCore isBlank text.toList t) :
    ofVersion? text =
      if t.takeWhile Char.isDigit ≠ [] ∧ '\n' ∉ t then
        some ⟨String.ofList (t.takeWhile Char.isDigit),
          librariesOf (String.ofList (t.takeWhile Char.isDigit))⟩
      else none := by
  have htrim : (Text.trim text).toList = t := by
    rw [Text.trim, String.toList_ofList, ht.strip_eq]
  rw [ofVersion?, htrim]
  by_cases hempty : t.takeWhile Char.isDigit = []
  · simp [hempty]
  · by_cases hline : '\n' ∈ t <;> simp [hempty, hline]

/-- A driver is what the pattern captures. -/
theorem ofVersion?_eq_capture (ht : IsCore isBlank text.toList t) :
    ofVersion? text = (versionPattern.capture? t).map fun digits =>
      ⟨String.ofList digits, librariesOf (String.ofList digits)⟩ := by
  rw [ofVersion?_eq_ite ht, versionPattern, Pattern.capture?_oneOrMore]
  simp only [all_dropWhile_iff]
  split <;> rfl

theorem ofVersion?_eq_some_iff (ht : IsCore isBlank text.toList t) :
    ofVersion? text = some driver ↔
      ((∃ c, t.head? = some c ∧ c.isDigit = true) ∧ '\n' ∉ t) ∧
        IsLongestRun Char.isDigit t driver.version.toList ∧
        driver.libraries = librariesOf driver.version := by
  have hstarts : t.takeWhile Char.isDigit ≠ [] ↔ ∃ c, t.head? = some c ∧ c.isDigit = true := by
    cases t with
    | nil => simp
    | cons c cs => by_cases hc : c.isDigit = true <;> simp [hc]
  rw [ofVersion?_eq_ite ht, ← hstarts, Text.isLongestRun_iff]
  obtain ⟨version, libraries⟩ := driver
  split
  · next hread =>
    rw [and_iff_right hread, Option.some.injEq, Driver.mk.injEq, ← String.toList_inj,
      String.toList_ofList, eq_comm, and_congr_right_iff]
    intro hversion
    rw [← hversion, String.ofList_toList, eq_comm]
  · next hnot => exact ⟨fun h => (Option.some_ne_none _ h.symm).elim, fun h => absurd h.1 hnot⟩

theorem librariesOf_eq (version : String) :
    librariesOf version = "/usr/lib/nvidia-" ++ version := rfl

/-- A version that consists of digits has a directory of its own. -/
theorem components_librariesOf {version : String}
    (hdigits : ∀ c ∈ version.toList, c.isDigit = true) :
    components (librariesOf version) = components "/usr/lib" ++ [.name ("nvidia-" ++ version)] := by
  have htext : ("nvidia-" ++ version).toList = "nvidia-".toList ++ version.toList :=
    String.toList_append ..
  have hhead : ("nvidia-" ++ version).toList.head? = some 'n' := by
    rw [htext]
    rfl
  have hjoin : Path.join "/usr/lib" ("nvidia-" ++ version) = librariesOf version := by
    have hrelative : isAbsolute ("nvidia-" ++ version) = false := by
      rw [isAbsolute, hhead]
      rfl
    have hprefix : "/usr/lib/" ++ "nvidia-" = "/usr/lib/nvidia-" := by decide
    rw [Path.join, hrelative, if_neg Bool.false_ne_true, if_neg (by decide), librariesOf_eq,
      ← hprefix, String.append_assoc]
    rfl
  have hne (other : String) (hother : other.toList.head? ≠ some 'n') :
      "nvidia-" ++ version ≠ other := by
    rintro rfl
    exact hother hhead
  have hordinary : Path.IsOrdinary ("nvidia-" ++ version) := by
    refine ⟨hne _ (by decide), hne _ (by decide), hne _ (by decide), ?_⟩
    rw [htext, List.mem_append, not_or]
    exact ⟨by decide, fun hslash => absurd (hdigits _ hslash) (by decide)⟩
  rw [← hjoin, hordinary.components_join]

theorem librariesOf_inj {version version' : String} :
    librariesOf version = librariesOf version' ↔ version = version' := by
  rw [librariesOf_eq, librariesOf_eq, ← String.toList_inj, String.toList_append,
    String.toList_append, List.append_cancel_left_eq, String.toList_inj]

/-- A driver is read off a text if and only if this is one line, between the blanks around
    it, that starts with a digit.  Its version is the whole leading number as it stands, its
    libraries are in the directory below `/usr/lib` that is named for this number, and two
    texts name one directory only if they have the same leading number. -/
theorem ofVersion?_exact (ht : IsCore isBlank text.toList t) :
    ((∃ driver, ofVersion? text = some driver) ↔
      (∃ c, t.head? = some c ∧ c.isDigit = true) ∧ '\n' ∉ t) ∧
    (ofVersion? text = (versionPattern.capture? t).map fun digits =>
      ⟨String.ofList digits, librariesOf (String.ofList digits)⟩) ∧
    ∀ driver, ofVersion? text = some driver →
      IsLongestRun Char.isDigit t driver.version.toList ∧
      driver.libraries = "/usr/lib/nvidia-" ++ driver.version ∧
      components driver.libraries =
        components "/usr/lib" ++ [.name ("nvidia-" ++ driver.version)] ∧
      ∀ text' t' driver', IsCore isBlank text'.toList t' → ofVersion? text' = some driver' →
        (driver.libraries = driver'.libraries ↔
          ∀ digits, IsLongestRun Char.isDigit t digits ↔ IsLongestRun Char.isDigit t' digits) := by
  refine ⟨?_, ofVersion?_eq_capture ht, ?_⟩
  · constructor
    · rintro ⟨driver, hdriver⟩
      exact ((ofVersion?_eq_some_iff ht).mp hdriver).1
    · intro hline
      have hrun := Text.isLongestRun_takeWhile Char.isDigit t
      let version := String.ofList (t.takeWhile Char.isDigit)
      refine ⟨⟨version, librariesOf version⟩, ?_⟩
      rw [ofVersion?_eq_some_iff ht, String.toList_ofList]
      exact ⟨hline, hrun, rfl⟩
  · intro driver hdriver
    obtain ⟨-, hrun, hlibraries⟩ := (ofVersion?_eq_some_iff ht).mp hdriver
    refine ⟨hrun, hlibraries, ?_, ?_⟩
    · rw [hlibraries]
      exact components_librariesOf hrun.all
    · intro text' t' driver' ht' hdriver'
      obtain ⟨-, hrun', hlibraries'⟩ := (ofVersion?_eq_some_iff ht').mp hdriver'
      rw [hlibraries, hlibraries', librariesOf_inj, ← String.toList_inj]
      simp only [Text.isLongestRun_iff] at hrun hrun' ⊢
      rw [hrun, hrun']
      constructor
      · intro hsame digits
        rw [hsame]
      · intro hsame
        exact (hsame _).mp rfl

/-- Leading zeros count, and so do all digits up to the first character that is none.  A
    carriage return within the line does no harm. -/
theorem ofVersion?_exact_leadingZero :
    let text := "\u3000 0384.111\r x\u2028\n"
    let driver : Driver := ⟨"0384", "/usr/lib/nvidia-0384"⟩
    IsCore isBlank text.toList "0384.111\r x".toList ∧
      IsCore isBlank "384.111".toList "384.111".toList ∧
      ofVersion? text = some driver ∧
      ofVersion? "384.111" = some ⟨"384", "/usr/lib/nvidia-384"⟩ ∧
      IsLongestRun Char.isDigit "0384.111\r x".toList driver.version.toList ∧
      components driver.libraries = components "/usr/lib" ++ [.name "nvidia-0384"] ∧
      ¬ ∀ digits, IsLongestRun Char.isDigit "0384.111\r x".toList digits ↔
        IsLongestRun Char.isDigit "384.111".toList digits := by
  intro text driver
  have hstrip : Text.strip isBlank text.toList = "0384.111\r x".toList := by decide +kernel
  have ht : IsCore isBlank text.toList "0384.111\r x".toList :=
    hstrip ▸ Text.isCore_strip isBlank text.toList
  have ht' : IsCore isBlank "384.111".toList "384.111".toList := Text.isCore_strip isBlank _
  have hdriver : ofVersion? text = some driver := by decide +kernel
  have hdriver' : ofVersion? "384.111" = some ⟨"384", "/usr/lib/nvidia-384"⟩ := by decide +kernel
  obtain ⟨-, -, htells⟩ := ofVersion?_exact ht
  obtain ⟨hrun, -, hbelow, hsame⟩ := htells driver hdriver
  refine ⟨ht, ht', hdriver, hdriver', hrun, hbelow, ?_⟩
  rw [← hsame _ _ _ ht' hdriver']
  decide

end Driver

end BuildTargets
