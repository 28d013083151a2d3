/-
  BuildTargets/Proofs/Bridge.lean
  ===============================
  **What counts in a bridge configuration.**

  A text is one list of lines, whichever line ends it has (`Text.written_iff`).  Of
  the lines only the last assignment of each of two keys counts
  (`setting?_eq_some_iff`), so no edit that leaves those two alone changes the verdict
  (`lastValue?_of_edit`).

  The address that counts need not be one: blanks go before quotes do, and comments
  do not go at all.  What is accepted names a subnet if there is neither a comment
  nor a blank between the quotes.
-/
import BuildTargets.Bridge
import BuildTargets.Proofs.Text.Lines
import Mathlib.Logic.Relation

namespace BuildTargets

namespace Bridge

/-! ### Assignments -/

/-- A line that sets `key`, with what is written behind its one `=`. -/
def Assigns (line key raw : List Char) : Prop :=
  line.head? ≠ some '#' ∧ '=' ∉ raw ∧
    ∃ name, '=' ∉ name ∧ line = name ++ '=' :: raw ∧ Text.strip Text.isBlank name = key

/-- The value that is read off what is written. -/
def value (raw : List Char) : List Char :=
  Text.strip (· = '"') (Text.strip Text.isBlank raw)

/-- The last of the lines that set `key`. -/
def LastAssigns (lines : List (List Char)) (key raw : List Char) : Prop :=
  ∃ before line after, lines = before ++ line :: after ∧ Assigns line key raw ∧
    ∀ later ∈ after, ∀ other, ¬ Assigns later key other

/-- The value of `key` after all lines. -/
def LastSets (lines : List (List Char)) (key v : List Char) : Prop :=
  ∃ raw, LastAssigns lines key raw ∧ value raw = v

/-- The value that a line gives to `key`. -/
def value? (key line : List Char) : Option (List Char) :=
  (assignment? line).bind fun a => if a.1 = key then some a.2 else none

/-- The value that the last of the lines that set it gives to `key`. -/
def lastValue? (lines : List (List Char)) (key : List Char) : Option (List Char) :=
  lines.reverse.findSome? (value? key)

variable {line key raw v : List Char} {lines lines' : List (List Char)} {text text' : String}

theorem Assigns.split_eq (h : Assigns line key raw) :
    ∃ name, Text.split '=' line = [name, raw] ∧ Text.strip Text.isBlank name = key := by
  obtain ⟨-, hraw, name, hname, rfl, hkey⟩ := h
  exact ⟨name, by rw [Text.split_append_sep hname, Text.split_eq_singleton hraw], hkey⟩

theorem assignment?_eq_some_iff :
    assignment? line = some (key, v) ↔ ∃ raw, Assigns line key raw ∧ value raw = v := by
  constructor
  · intro h
    unfold assignment? at h
    split at h
    · cases h
    · next hhead =>
      split at h
      · next name raw hsplit =>
        cases h
        have hfree (field : List Char) (hfield : field ∈ [name, raw]) : '=' ∉ field :=
          Text.sep_not_mem_of_mem_split (hsplit ▸ hfield)
        have hline : name ++ '=' :: raw = line := by
          have hjoin := Text.joinWith_split '=' line
          rwa [hsplit] at hjoin
        exact ⟨raw, ⟨hhead, hfree raw (by simp), name, hfree name (by simp), hline.symm, rfl⟩, rfl⟩
      · cases h
  · rintro ⟨raw, h, rfl⟩
    obtain ⟨name, hsplit, hkey⟩ := h.split_eq
    unfold assignment?
    rw [if_neg h.1, hsplit, ← hkey]
    rfl

theorem value?_eq_some_iff :
    value? key line = some v ↔ ∃ raw, Assigns line key raw ∧ value raw = v := by
  rw [← assignment?_eq_some_iff]
  simp [value?, Option.bind_eq_some_iff]

theorem value?_eq_none_iff : value? key line = none ↔ ∀ raw, ¬ Assigns line key raw := by
  rw [Option.eq_none_iff_forall_ne_some]
  constructor
  · intro h raw hassigns
    exact h (value raw) (value?_eq_some_iff.mpr ⟨raw, hassigns, rfl⟩)
  · intro h v hv
    obtain ⟨raw, hassigns, -⟩ := value?_eq_some_iff.mp hv
    exact h raw hassigns

theorem lastValue?_eq_some_iff : lastValue? lines key = some v ↔ LastSets lines key v := by
  rw [lastValue?, List.findSome?_eq_some_iff]
  constructor
  · rintro ⟨after, line, before, hlines, hline, hafter⟩
    obtain ⟨raw, hassigns, hv⟩ := value?_eq_some_iff.mp hline
    refine ⟨raw, ⟨before.reverse, line, after.reverse, ?_, hassigns, ?_⟩, hv⟩
    · rw [← List.reverse_reverse lines, hlines]
      simp
    · intro later hlater
      exact value?_eq_none_iff.mp (hafter later (List.mem_reverse.mp hlater))
  · rintro ⟨raw, ⟨before, line, after, rfl, hassigns, hafter⟩, hv⟩
    refine ⟨after.reverse, line, before.reverse, by simp,
      value?_eq_some_iff.mpr ⟨raw, hassigns, hv⟩, ?_⟩
    intro later hlater
    exact value?_eq_none_iff.mpr (hafter later (List.mem_reverse.mp hlater))

theorem setting?_eq (text : String) (key : List Char) :
    setting? text key = lastValue? (Text.lines text.toList) key := by
  rw [setting?, assignments, lastValue?, ← List.filterMap_eq_map, ← List.filterMap_eq_filter,
    List.filterMap_filterMap, List.filterMap_filterMap, List.getLast?_filterMap]
  congr 1
  funext line
  simp only [value?]
  congr 1
  funext a
  by_cases ha : a.1 = key <;> simp [Option.guard, ha]

theorem setting?_eq_some_iff (h : Text.Written lines text.toList) :
    setting? text key = some v ↔ LastSets lines key v := by
  rw [setting?_eq, Text.written_iff.mp h, lastValue?_eq_some_iff]

/-! ### The verdict -/

/-- The two keys that count. -/
def Counts (key : List Char) : Prop := key = enabledKey ∨ key = addressKey

theorem isConfigured_iff : isConfigured text = true ↔
    setting? text enabledKey = some "true".toList ∧
      ∃ v, setting? text addressKey = some v ∧ v ≠ [] := by
  unfold isConfigured
  rw [Bool.and_eq_true, decide_eq_true_iff]
  cases setting? text addressKey <;> simp

theorem checkText_eq_ok_iff : checkText text = .ok () ↔ isConfigured text = true := by
  unfold checkText
  split <;> simp [*]

theorem checkText_congr (h : ∀ key, Counts key → setting? text key = setting? text' key) :
    checkText text = checkText text' := by
  unfold checkText isConfigured
  rw [h enabledKey (Or.inl rfl), h addressKey (Or.inr rfl)]

/-! ### Edits that change nothing -/

/-- A line that sets neither of the keys that count. -/
inductive Idle (line : List Char) : Prop
  | comment (h : line.head? = some '#')
  | blank (h : ∀ c ∈ line, Text.isBlank c = true)
  | malformed (h : line.count '=' ≠ 1)
  | other {key raw : List Char} (h : Assigns line key raw) (hkey : ¬ Counts key)

/-- A change of some lines that leaves alone what counts. -/
inductive Edit : List (List Char) → List (List Char) → Prop
  | insert (before after : List (List Char)) {line : List Char} (h : Idle line) :
      Edit (before ++ after) (before ++ line :: after)
  | swap (before after : List (List Char)) {line other : List Char}
      (h : ∀ key raw raw', Assigns line key raw → ¬ Assigns other key raw') :
      Edit (before ++ line :: other :: after) (before ++ other :: line :: after)
  | overridden (before between after : List (List Char)) {line later key raw raw' : List Char}
      (h : Assigns line key raw) (hlater : Assigns later key raw') :
      Edit (before ++ (between ++ later :: after)) (before ++ line :: (between ++ later :: after))

theorem Assigns.key_eq {key' raw' : List Char} (h : Assigns line key raw)
    (h' : Assigns line key' raw') : key' = key := by
  obtain ⟨name, hsplit, rfl⟩ := h.split_eq
  obtain ⟨name', hsplit', rfl⟩ := h'.split_eq
  rw [hsplit] at hsplit'
  cases hsplit'
  rfl

theorem Assigns.count_eq (h : Assigns line key raw) : line.count '=' = 1 := by
  obtain ⟨-, hraw, name, hname, rfl, -⟩ := h
  rw [List.count_append, List.count_cons_self, List.count_eq_zero.mpr hname,
    List.count_eq_zero.mpr hraw]

theorem Idle.not_assigns (h : Idle line) (hkey : Counts key) (raw : List Char) :
    ¬ Assigns line key raw := by
  intro hassigns
  cases h with
  | comment h => exact hassigns.1 h
  | blank h =>
    obtain ⟨-, -, name, -, rfl, -⟩ := hassigns
    exact absurd (h '=' (List.mem_append_right _ (List.mem_cons_self ..))) (by decide)
  | malformed h => exact h hassigns.count_eq
  | other h hother => exact hother (h.key_eq hassigns ▸ hkey)

theorem lastValue?_append (before after : List (List Char)) (key : List Char) :
    lastValue? (before ++ after) key = (lastValue? after key).or (lastValue? before key) := by
  rw [lastValue?, List.reverse_append, List.findSome?_append]
  rfl

theorem lastValue?_cons (line : List Char) (after : List (List Char)) (key : List Char) :
    lastValue? (line :: after) key = (lastValue? after key).or (value? key line) := by
  rw [← List.singleton_append, lastValue?_append]
  congr 1
  simp [lastValue?]

theorem lastValue?_cons_of_not_assigns (h : ∀ raw, ¬ Assigns line key raw)
    (after : List (List Char)) : lastValue? (line :: after) key = lastValue? after key := by
  rw [lastValue?_cons, value?_eq_none_iff.mpr h, Option.or_none]

/-- A line has no say if a later one sets the key. -/
theorem lastValue?_cons_of_later {later : List Char} (hlater : Assigns later key raw)
    (between after : List (List Char)) :
    lastValue? (line :: (between ++ later :: after)) key =
      lastValue? (between ++ later :: after) key := by
  have hvalue : value? key later = some (value raw) := value?_eq_some_iff.mpr ⟨raw, hlater, rfl⟩
  have hset : (lastValue? (between ++ later :: after) key).isSome = true := by
    rw [lastValue?_append, lastValue?_cons, hvalue]
    simp
  rw [lastValue?_cons, Option.or_of_isSome hset]

theorem lastValue?_swap {other : List Char}
    (h : ∀ raw raw', Assigns line key raw → ¬ Assigns other key raw') (after : List (List Char)) :
    lastValue? (line :: other :: after) key = lastValue? (other :: line :: after) key := by
  by_cases hline : ∃ raw, Assigns line key raw
  · obtain ⟨raw, hline⟩ := hline
    have hother : ∀ raw', ¬ Assigns other key raw' := fun raw' => h raw raw' hline
    rw [lastValue?_cons_of_not_assigns hother, lastValue?_cons, lastValue?_cons line,
      lastValue?_cons_of_not_assigns hother]
  · have hidle : ∀ raw, ¬ Assigns line key raw := fun raw hraw => hline ⟨raw, hraw⟩
    rw [lastValue?_cons_of_not_assigns hidle, lastValue?_cons other, lastValue?_cons other,
      lastValue?_cons_of_not_assigns hidle]

theorem lastValue?_of_edit (h : Edit lines lines') (hkey : Counts key) :
    lastValue? lines key = lastValue? lines' key := by
  cases h with
  | insert before after h =>
    rw [lastValue?_append, lastValue?_append,
      lastValue?_cons_of_not_assigns (h.not_assigns hkey)]
  | swap before after h =>
    rw [lastValue?_append, lastValue?_append, lastValue?_swap (h key)]
  | @overridden before between after line later lineKey raw raw' h hlater =>
    rw [lastValue?_append, lastValue?_append before]
    by_cases hsame : lineKey = key
    · subst hsame
      rw [lastValue?_cons_of_later hlater]
    · rw [lastValue?_cons_of_not_assigns fun other hother => hsame (hother.key_eq h)]

theorem lastValue?_of_edits (h : Relation.EqvGen Edit lines lines') (hkey : Counts key) :
    lastValue? lines key = lastValue? lines' key := by
  induction h with
  | rel _ _ hedit => exact lastValue?_of_edit hedit hkey
  | refl _ => rfl
  | symm _ _ _ ih => exact ih.symm
  | trans _ _ _ _ _ ih ih' => exact ih.trans ih'

/-- The verdict on a configuration depends on the last assignments of the two keys that
    count, so it is kept by every edit that keeps these.  It is favourable if they enable the
    bridge and set an address. -/
theorem checkText_determined (h : Text.Written lines text.toList)
    (h' : Text.Written lines' text'.toList) :
    ((∀ key, Counts key → ∀ v, LastSets lines key v ↔ LastSets lines' key v) →
      checkText text = checkText text') ∧
    (Relation.EqvGen Edit lines lines' → checkText text = checkText text') ∧
    (checkText text = .ok () ↔ LastSets lines enabledKey "true".toList ∧
      ∃ v, LastSets lines addressKey v ∧ v ≠ []) := by
  refine ⟨?_, ?_, ?_⟩
  · intro hsame
    refine checkText_congr fun key hkey => Option.ext fun v => ?_
    rw [setting?_eq_some_iff h, setting?_eq_some_iff h', hsame key hkey]
  · intro hedits
    refine checkText_congr fun key hkey => ?_
    rw [setting?_eq, setting?_eq, Text.written_iff.mp h, Text.written_iff.mp h',
      lastValue?_of_edits hedits hkey]
  · simp only [checkText_eq_ok_iff, isConfigured_iff, setting?_eq_some_iff h]

/-- A configuration that is written in another way: with a comment, with an assignment that is
    overridden, in another order, with other line ends and without the last one. -/
theorem checkText_determined_rewritten :
    let enabled := "USE_LXD_BRIDGE=\"true\"".toList
    let address := "LXD_IPV4_ADDR=\"10.0.3.1\"".toList
    let unset := "LXD_IPV4_ADDR=\"\"".toList
    let text := "USE_LXD_BRIDGE=\"true\"\nLXD_IPV4_ADDR=\"10.0.3.1\"\n"
    let text' := "# bridge\r\nLXD_IPV4_ADDR=\"\"\r\n" ++
      "LXD_IPV4_ADDR=\"10.0.3.1\"\nUSE_LXD_BRIDGE=\"true\""
    Text.Written [enabled, address] text.toList ∧
      Text.Written ["# bridge".toList, unset, address, enabled] text'.toList ∧
      Relation.EqvGen Edit [enabled, address] ["# bridge".toList, unset, address, enabled] ∧
      checkText text' = checkText text ∧ checkText text = .ok () := by
  intro enabled address unset text text'
  have htext : Text.Written [enabled, address] text.toList :=
    Text.written_iff.mpr (by decide +kernel)
  have htext' : Text.Written ["# bridge".toList, unset, address, enabled] text'.toList :=
    Text.written_iff.mpr (by decide +kernel)
  have henabled : Assigns enabled enabledKey "\"true\"".toList :=
    ⟨by decide, by decide, enabledKey, by decide, by decide, by decide⟩
  have haddress : Assigns address addressKey "\"10.0.3.1\"".toList :=
    ⟨by decide, by decide, addressKey, by decide, by decide, by decide⟩
  have hunset : Assigns unset addressKey "\"\"".toList :=
    ⟨by decide, by decide, addressKey, by decide, by decide, by decide⟩
  have hkeys : ∀ key raw raw', Assigns enabled key raw → ¬ Assigns address key raw' := by
    intro key raw raw' h h'
    have hkey := henabled.key_eq h
    rw [haddress.key_eq h'] at hkey
    exact absurd hkey (by decide)
  have hswap : Relation.EqvGen Edit [enabled, address] [address, enabled] :=
    .rel _ _ (.swap [] [] hkeys)
  have hoverridden : Relation.EqvGen Edit [address, enabled] [unset, address, enabled] :=
    .rel _ _ (.overridden [] [] [enabled] hunset haddress)
  have hcomment : Relation.EqvGen Edit [unset, address, enabled]
      ["# bridge".toList, unset, address, enabled] :=
    .rel _ _ (.insert [] [unset, address, enabled] (.comment rfl))
  have hedits := (hswap.trans _ _ _ hoverridden).trans _ _ _ hcomment
  have hlater : ∀ raw, ¬ Assigns address enabledKey raw := fun raw => hkeys _ _ raw henabled
  have hlastEnabled : LastAssigns [enabled, address] enabledKey "\"true\"".toList :=
    ⟨[], enabled, [address], rfl, henabled, by simpa using hlater⟩
  have hlastAddress : LastAssigns [enabled, address] addressKey "\"10.0.3.1\"".toList :=
    ⟨[enabled], address, [], rfl, haddress, by simp⟩
  obtain ⟨-, hkept, hverdict⟩ := checkText_determined htext htext'
  refine ⟨htext, htext', hedits, (hkept hedits).symm, hverdict.mpr ⟨?_, ?_⟩⟩
  · exact ⟨_, hlastEnabled, by decide⟩
  · exact ⟨_, ⟨_, hlastAddress, rfl⟩, by decide⟩

/-! ### The address that is accepted -/

/-- What is written, up to a comment: a `#` in front or behind a blank or behind a closing
    quote.  The flags say whether a quote is open, and whether a comment can begin. -/
def uncommented : Bool → Bool → List Char → List Char
  | _, _, [] => []
  | quoted, fresh, c :: rest =>
    if c = '#' ∧ fresh = true then []
    else if c = '"' then c :: uncommented (!quoted) quoted rest
    else c :: uncommented quoted (!quoted && Text.isBlank c) rest

def withoutComment (raw : List Char) : List Char := uncommented false true raw

/-- What can stand around a name. -/
def isWrapping (c : Char) : Bool := Text.isBlank c || c = '"'

/-- What is named by what is written: without a comment, and without the blanks and quotes
    around it. -/
def named (raw : List Char) : List Char := Text.strip isWrapping (withoutComment raw)

/-- What follows blanks and quotes is not in a comment unless it begins one. -/
theorem mem_uncommented {c : Char} (hc : c ≠ '#') {front : List Char}
    (hfront : ∀ d ∈ front, isWrapping d = true) (quoted fresh : Bool) (back : List Char) :
    c ∈ uncommented quoted fresh (front ++ c :: back) := by
  induction front generalizing quoted fresh with
  | nil =>
    rw [List.nil_append, uncommented, if_neg (fun h => hc h.1)]
    split <;> exact List.mem_cons_self ..
  | cons d front ih =>
    have hd : d ≠ '#' := by
      rintro rfl
      exact absurd (hfront '#' (List.mem_cons_self ..)) (by decide)
    have hrest := fun e he => hfront e (List.mem_cons_of_mem _ he)
    rw [List.cons_append, uncommented, if_neg (fun h => hd h.1)]
    split <;> exact List.mem_cons_of_mem _ (ih hrest ..)

/-- A value stands in what is written behind blanks and quotes only. -/
theorem exists_value (raw : List Char) :
    ∃ front back, raw = front ++ value raw ++ back ∧ ∀ c ∈ front, isWrapping c = true := by
  obtain ⟨blanks, rest, hraw, hblanks, -⟩ := Text.exists_strip Text.isBlank raw
  obtain ⟨quotes, rest', hvalue, hquotes, -⟩ :=
    Text.exists_strip (· = '"') (Text.strip Text.isBlank raw)
  refine ⟨blanks ++ quotes, rest' ++ rest, ?_, ?_⟩
  · calc raw = blanks ++ Text.strip Text.isBlank raw ++ rest := hraw
      _ = blanks ++ (quotes ++ value raw ++ rest') ++ rest := by rw [value, ← hvalue]
      _ = blanks ++ quotes ++ value raw ++ (rest' ++ rest) := by simp only [List.append_assoc]
  · intro c hc
    rw [isWrapping, Bool.or_eq_true]
    exact (List.mem_append.mp hc).imp (hblanks c) (hquotes c)

/-- A value names nothing only if it begins with a blank or with a comment. -/
theorem blank_or_comment_of_named_eq_nil {c : Char} (hc : (value raw).head? = some c)
    (h : named raw = []) :
    Text.isBlank c = true ∨ c = '#' ∧ withoutComment raw ≠ raw := by
  obtain ⟨front, back, hraw, hfront⟩ := exists_value raw
  obtain ⟨more, hmore⟩ := List.head?_eq_some_iff.mp hc
  rw [hmore, List.append_assoc, List.cons_append] at hraw
  by_cases hblank : Text.isBlank c = true
  · exact Or.inl hblank
  · have hlost : c ∉ withoutComment raw := by
      intro hmem
      have hwrapping : isWrapping c = true := Text.strip_eq_nil_iff.mp h c hmem
      rw [isWrapping, Bool.or_eq_true] at hwrapping
      exact Text.head?_strip c (hwrapping.resolve_left hblank) hc
    refine Or.inr ⟨Classical.byContradiction fun hne => hlost ?_, fun hnone => hlost ?_⟩
    · rw [withoutComment, hraw]
      exact mem_uncommented hne hfront ..
    · rw [hnone, hraw]
      exact List.mem_append_right _ (List.mem_cons_self ..)

/-- A configuration that is accepted sets an address.  If that names no subnet, then a blank
    between quotes or a comment has been taken for it. -/
theorem address_of_checkText (h : Text.Written lines text.toList) (hok : checkText text = .ok ()) :
    (∃ raw, LastAssigns lines addressKey raw) ∧
    ∀ raw, LastAssigns lines addressKey raw → ∃ c, (value raw).head? = some c ∧
      (named raw = [] → Text.isBlank c = true ∨ c = '#' ∧ withoutComment raw ≠ raw) := by
  rw [checkText_eq_ok_iff, isConfigured_iff] at hok
  obtain ⟨-, v, haddress, hv⟩ := hok
  refine ⟨?_, fun raw hlast => ?_⟩
  · obtain ⟨raw, hlast, -⟩ := (setting?_eq_some_iff h).mp haddress
    exact ⟨raw, hlast⟩
  · have hvalue : setting? text addressKey = some (value raw) :=
      (setting?_eq_some_iff h).mpr ⟨raw, hlast, rfl⟩
    rw [haddress, Option.some.injEq] at hvalue
    obtain ⟨c, hc⟩ := Option.ne_none_iff_exists'.mp (mt List.head?_eq_none_iff.mp hv)
    rw [hvalue] at hc
    exact ⟨c, hc, blank_or_comment_of_named_eq_nil hc⟩

/-- An address that a comment follows. -/
theorem address_of_checkText_commented :
    let enabled := "USE_LXD_BRIDGE=\"true\"".toList
    let address := "LXD_IPV4_ADDR = \"10.0.3.1\" # the bridge".toList
    let text := "USE_LXD_BRIDGE=\"true\"\nLXD_IPV4_ADDR = \"10.0.3.1\" # the bridge\n"
    let raw := " \"10.0.3.1\" # the bridge".toList
    Text.Written [enabled, address] text.toList ∧ checkText text = .ok () ∧
      LastAssigns [enabled, address] addressKey raw ∧ named raw ≠ [] := by
  intro enabled address text raw
  have hwritten : Text.Written [enabled, address] text.toList :=
    Text.written_iff.mpr (by decide +kernel)
  have hok : checkText text = .ok () := by
    rw [checkText_eq_ok_iff]
    decide +kernel
  have hlast : LastAssigns [enabled, address] addressKey raw :=
    ⟨[enabled], address, [], rfl,
      ⟨by decide, by decide, "LXD_IPV4_ADDR ".toList, by decide, by decide, by decide⟩, by simp⟩
  obtain ⟨c, hc, hnamed⟩ := (address_of_checkText hwritten hok).2 raw hlast
  have hdigit : c = '1' := Option.some.inj (hc.symm.trans (by decide))
  subst hdigit
  exact ⟨hwritten, hok, hlast, fun h => absurd (hnamed h) (by decide)⟩

/-- Neither a blank between quotes nor a comment behind them names a subnet, but both are
    accepted; quotes with nothing between them are not. -/
theorem blank_address_accepted :
    let text (raw : String) := "USE_LXD_BRIDGE=\"true\"\nLXD_IPV4_ADDR=" ++ raw ++ "\n"
    (∀ raw ∈ ["\" \"", "\"\" # none"], checkText (text raw) = .ok () ∧
      LastAssigns (Text.lines (text raw).toList) addressKey raw.toList ∧ named raw.toList = []) ∧
    checkText (text "\"\"") ≠ .ok () := by
  have hlast (raw : String) (hraw : '=' ∉ raw.toList)
      (hlines : Text.lines ("USE_LXD_BRIDGE=\"true\"\nLXD_IPV4_ADDR=" ++ raw ++ "\n").toList =
        ["USE_LXD_BRIDGE=\"true\"".toList, "LXD_IPV4_ADDR=".toList ++ raw.toList]) :
      LastAssigns (Text.lines ("USE_LXD_BRIDGE=\"true\"\nLXD_IPV4_ADDR=" ++ raw ++ "\n").toList)
        addressKey raw.toList :=
    ⟨[_], _, [], hlines, ⟨by simp, hraw, addressKey, by decide, rfl, by decide⟩, by simp⟩
  simp only [Ne, checkText_eq_ok_iff]
  refine ⟨?_, by decide +kernel⟩
  intro raw hraw
  simp only [List.mem_cons, List.not_mem_nil, or_false] at hraw
  rcases hraw with rfl | rfl
  · exact ⟨by decide +kernel, hlast _ (by decide) (by decide +kernel), by decide⟩
  · exact ⟨by decide +kernel, hlast _ (by decide) (by decide +kernel), by decide⟩

end Bridge

end BuildTargets
