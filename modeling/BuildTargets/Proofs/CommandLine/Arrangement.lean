/-
  BuildTargets/Proofs/CommandLine/Arrangement.lean
  ================================================
  **Options mean the same wherever they stand.**

  What a command line says is a list of *marks*: a setting with its value, a flag, the
  name of a container.  There are several ways to write a mark down (`Spelling`), and
  the marks may be written in any order, before the command or after it.  If nothing is
  said twice that must not be, the command line is understood, and it means the command
  together with what the marks say (`parse_arrangement`).

  The invariant of reading is that the level reached `Stands` for the marks read so far:
  what it comes to, once its pending value is looked at, is computed from them alone
  (`summary`).
-/
import BuildTargets.CommandLine.Parse
import Mathlib.Data.List.Forall2
import Mathlib.Data.Nat.Digits.Defs

namespace BuildTargets

/-! ### How options are written -/

def Setting.word : Setting → String
  | client => "lxc"
  | dataDir => "lxd-dir"
  | hostRoot => "host-root"
  | timeout => "timeout"
  | bridgeFile => "bridge-file"

def Flag.word : Flag → String
  | json => "json"
  | verbose => "verbose"
  | help => "help"
  | version => "version"
  | ignoreBridge => "ignore-bridge"

def Flag.letter? : Flag → Option Char
  | json => none
  | verbose => some 'v'
  | help => some 'h'
  | version => some 'V'
  | ignoreBridge => some 'b'

def Command.verb : Command → Verb
  | .list => .list
  | .exist _ => .exist
  | .rootfs _ => .rootfs
  | .status _ => .status
  | .destroy _ => .destroy
  | .initialized _ => .initialized
  | .autofix => .autofix
  | .check _ => .check
  | .fix _ => .fix

def Command.name? : Command → Option String
  | .exist name | .rootfs name | .status name | .destroy name => some name
  | .check name | .fix name => name
  | .list | .initialized _ | .autofix => none

def Environment.setting? (env : Environment) : Setting → Option String
  | .client => env.client
  | .dataDir => env.dataDir
  | .hostRoot => env.hostRoot
  | .timeout => env.timeout
  | .bridgeFile => none

theorem Setting.not_mem_word (s : Setting) : '=' ∉ s.word.toList := by
  cases s <;> decide

theorem Flag.not_mem_word (f : Flag) : '=' ∉ f.word.toList := by
  cases f <;> decide

@[simp] theorem Setting.ofName?_word (s : Setting) : Setting.ofName? s.word = some s := by
  cases s <;> rfl

@[simp] theorem Setting.ofName?_flag (f : Flag) : Setting.ofName? f.word = none := by
  cases f <;> rfl

theorem Flag.ofName?_word {scope : Scope} {f : Flag} (h : f.isKnown scope = true) :
    Flag.ofName? scope f.word = some f := by
  have hflag : Flag.ofName? scope f.word = (some f).filter (·.isKnown scope) := by
    cases f <;> rfl
  simp [hflag, h]

theorem Flag.ofLetter?_letter {scope : Scope} {f : Flag} {c : Char} (hc : f.letter? = some c)
    (h : f.isKnown scope = true) : Flag.ofLetter? scope c = some f := by
  have hflag : Flag.ofLetter? scope c = (some f).filter (·.isKnown scope) := by
    cases f <;> cases hc <;> rfl
  simp [hflag, h]

theorem Verb.ofWord?_word (verb : Verb) : Verb.ofWord? verb.word = some verb := by
  cases verb <;> decide

/-! ### Values -/

/-- A number of seconds: decimal digits, a plus sign before them or not. -/
def IsSeconds (v : String) : Prop :=
  ∃ ds, (v.toList = ds ∨ v.toList = '+' :: ds) ∧ ds ≠ [] ∧ ∀ c ∈ ds, c.isDigit = true

/-- The number that the digits of a text make. -/
def seconds (v : String) : Nat :=
  Nat.ofDigits 10 ((v.toList.filter (·.isDigit)).reverse.map fun c => c.toNat - '0'.toNat)

/-- The values that a setting can be given. -/
structure Setting.Accepts (s : Setting) (v : String) : Prop where
  nonempty : v ≠ ""
  inRange : s = .timeout → IsSeconds v ∧ seconds v < 2 ^ 64

namespace CommandLine

theorem pathValue_of_ne {v : String} (h : v ≠ "") : pathValue v = .ok v := if_neg h

theorem digitsValue_eq (ds : List Char) :
    digitsValue ds = Nat.ofDigits 10 (ds.reverse.map fun c => c.toNat - '0'.toNat) := by
  rw [digitsValue, List.foldl_eq_foldr_reverse, Nat.ofDigits_eq_foldr, List.foldr_map]
  congr 1
  funext c n
  rw [Nat.mul_comm n 10, Nat.add_comm]
  rfl

theorem secondsValue_of_isSeconds {v : String} (h : IsSeconds v) (hlt : seconds v < 2 ^ 64) :
    secondsValue v = .ok (seconds v) := by
  obtain ⟨ds, hv, hne, hall⟩ := h
  have hfilter : v.toList.filter (·.isDigit) = ds := by
    have hds : ds.filter (·.isDigit) = ds := List.filter_eq_self.mpr hall
    rcases hv with hv | hv
    · rw [hv, hds]
    · have hplus : Char.isDigit '+' = false := by decide
      rw [hv, List.filter_cons_of_neg (by simp [hplus]), hds]
  have hvalue : digitsValue ds = seconds v := by
    rw [digitsValue_eq, seconds, hfilter]
  have haccepts : (if ds ≠ [] && ds.all (·.isDigit) && digitsValue ds < Nat.pow 2 64 then
      .ok (digitsValue ds) else .error .badNumber : Except Refusal Nat) = .ok (seconds v) := by
    rw [hvalue]
    apply if_pos
    simpa [hne] using ⟨hall, hlt⟩
  rw [← haccepts]
  unfold secondsValue
  split
  · next rest hrest =>
    rcases hv with hv | hv
    · have hplus : Char.isDigit '+' = true := hall '+' (by simp [← hv, hrest])
      cases hplus
    · rw [hv, List.cons.injEq] at hrest
      rw [hrest.2]
  · next hnone =>
    rcases hv with hv | hv
    · rw [hv]
    · exact absurd hv (hnone ds)

/-! ### Marks, and how they are written -/

/-- One thing that a command line says besides its command. -/
inductive Mark where
  | value (s : Setting) (v : String)
  | flag (f : Flag)
  | name (n : String)
deriving DecidableEq

/-- The ways to write marks.  A value may follow its option in the same word, and it may
    be a word of its own if it does not look like an option; flags with letters may
    share a word. -/
inductive Spelling : List String → List Mark → Prop where
  | joined (s : Setting) (v : String) :
      Spelling ["--" ++ s.word ++ "=" ++ v] [.value s v]
  | apart (s : Setting) {v : String} (hv : v.toList.head? ≠ some '-') :
      Spelling ["--" ++ s.word, v] [.value s v]
  | long (f : Flag) : Spelling ["--" ++ f.word] [.flag f]
  | letters {fs : List Flag} {cs : List Char}
      (h : List.Forall₂ (fun f c => f.letter? = some c) fs cs) (hne : cs ≠ []) :
      Spelling [String.ofList ('-' :: cs)] (fs.map .flag)
  | name {n : String} (hn : n.toList.head? ≠ some '-') : Spelling [n] [.name n]

/-- Some words write down some marks, in this order. -/
inductive Spells : List String → List Mark → Prop where
  | nil : Spells [] []
  | cons {ws ws' : List String} {ms ms' : List Mark} (h : Spelling ws ms) (h' : Spells ws' ms') :
      Spells (ws ++ ws') (ms ++ ms')

namespace Mark

/-- Whether two marks may not both be on a command line. -/
def Clashes : Mark → Mark → Prop
  | value s _, value s' _ => s = s'
  | flag f, flag f' => f = f' ∧ f ≠ .verbose
  | name _, name _ => True
  | _, _ => False

def value? (s : Setting) : Mark → Option String
  | value s' v => if s' = s then some v else none
  | _ => none

def name? : Mark → Option String
  | name n => some n
  | _ => none

/-- Whether a mark can be understood at some place. -/
def Suits (scope : Scope) : Mark → Prop
  | value s v => s.Accepts v
  | flag f => f.isKnown scope = true ∧ f ≠ .help ∧ f ≠ .version
  | name _ => ∃ verb, scope = .afterCommand verb ∧ verb.takesName = true

end Mark

def value? (s : Setting) (ms : List Mark) : Option String := ms.findSome? (·.value? s)

def name? (ms : List Mark) : Option String := ms.findSome? Mark.name?

/-- What some marks come to that have been read at one place. -/
def summary (ms : List Mark) : Given where
  client := value? .client ms
  dataDir := value? .dataDir ms
  hostRoot := value? .hostRoot ms
  timeout := (value? .timeout ms).map seconds
  bridgeFile := value? .bridgeFile ms
  json := decide (.flag .json ∈ ms)
  verbose := min 255 (ms.count (.flag .verbose))
  ignoreBridge := decide (.flag .ignoreBridge ∈ ms)
  name := name? ms

section

variable {s : Setting} {v n : String} {f : Flag} {ms ms' : List Mark} {m : Mark}

theorem value?_append (s : Setting) (ms ms' : List Mark) :
    value? s (ms ++ ms') = (value? s ms).or (value? s ms') := List.findSome?_append

theorem name?_append (ms ms' : List Mark) : name? (ms ++ ms') = (name? ms).or (name? ms') :=
  List.findSome?_append

@[simp] theorem value?_value (s s' : Setting) (v : String) :
    value? s [.value s' v] = if s' = s then some v else none := by
  simp only [value?, List.findSome?_cons, Mark.value?, List.findSome?_nil]
  split <;> simp_all

@[simp] theorem value?_flag (s : Setting) (f : Flag) : value? s [.flag f] = none := rfl

@[simp] theorem value?_name (s : Setting) (n : String) : value? s [.name n] = none := rfl

@[simp] theorem name?_value (s : Setting) (v : String) : name? [.value s v] = none := rfl

@[simp] theorem name?_flag (f : Flag) : name? [.flag f] = none := rfl

@[simp] theorem name?_name (n : String) : name? [.name n] = some n := rfl

theorem value?_eq_none (h : ∀ m ∈ ms, ¬m.Clashes (.value s v)) : value? s ms = none := by
  rw [value?, List.findSome?_eq_none_iff]
  intro m hm
  cases m with
  | value s' v' => exact if_neg (h _ hm)
  | flag f => rfl
  | name n => rfl

theorem name?_eq_none (h : ∀ m ∈ ms, ¬m.Clashes (.name n)) : name? ms = none := by
  rw [name?, List.findSome?_eq_none_iff]
  intro m hm
  cases m with
  | value s v => rfl
  | flag f => rfl
  | name n' => exact absurd trivial (h _ hm)

theorem flag_not_mem (h : ∀ m ∈ ms, ¬m.Clashes (.flag f)) (hf : f ≠ .verbose) : .flag f ∉ ms :=
  fun hm => h _ hm ⟨rfl, hf⟩

/-! ### Marks as they are read -/

theorem set_summary (hfresh : ∀ m ∈ ms, ¬m.Clashes (.value s v)) (h : s.Accepts v) :
    (summary ms).set s v = .ok (summary (ms ++ [.value s v])) := by
  have hnone := value?_eq_none hfresh
  cases s with
  | timeout =>
    obtain ⟨hv, hlt⟩ := h.inRange rfl
    simp [Given.set, summary, hnone, Given.once, secondsValue_of_isSeconds hv hlt, Except.map,
      value?_append, name?_append, List.count_append]
  | _ =>
    simp [Given.set, summary, hnone, Given.once, pathValue_of_ne h.nonempty, Except.map,
      value?_append, name?_append, List.count_append]

theorem raise_summary (hfresh : ∀ m ∈ ms, ¬m.Clashes (.flag f)) (hhelp : f ≠ .help)
    (hversion : f ≠ .version) : (summary ms).raise f = .ok (summary (ms ++ [.flag f])) := by
  cases f with
  | json =>
    have hnone := flag_not_mem hfresh (by decide)
    simp [Given.raise, summary, hnone, value?_append, name?_append, List.count_append]
  | ignoreBridge =>
    have hnone := flag_not_mem hfresh (by decide)
    simp [Given.raise, summary, hnone, value?_append, name?_append, List.count_append]
  | verbose =>
    simp [Given.raise, Given.countLimit, summary, value?_append, name?_append, List.count_append]
    omega
  | help => exact absurd rfl hhelp
  | version => exact absurd rfl hversion

end

/-! ### Levels -/

/-- A level comes to some marks: it awaits no value, and the value that it has not
    looked at yet is a good one. -/
structure Stands (l : Level) (ms : List Mark) : Prop where
  waits : l.isAwaiting = false
  settles : l.settle = .ok (summary ms)
  name : l.given.name = name? ms

/-- A word after two hyphens is cut at the first equals sign. -/
theorem cut_word {name : List Char} (hname : '=' ∉ name) (rest : List Char)
    (hrest : rest = [] ∨ rest.head? = some '=') :
    (name ++ rest).takeWhile (· ≠ '=') = name ∧ (name ++ rest).dropWhile (· ≠ '=') = rest := by
  have hall : ∀ c ∈ name, decide (c ≠ '=') = true := by
    intro c hc
    rw [decide_eq_true_eq]
    rintro rfl
    exact hname hc
  rw [List.takeWhile_append_of_pos hall, List.dropWhile_append_of_pos hall]
  cases rest with
  | nil => exact ⟨List.append_nil _, rfl⟩
  | cons c rest =>
    obtain rfl : c = '=' := by simpa using hrest
    exact ⟨List.append_nil _, rfl⟩

theorem long_word (scope : Scope) (l : Level) {name : String} (hname : '=' ∉ name.toList) :
    l.long scope name.toList = match Setting.ofName? name, Flag.ofName? scope name with
      | some s, _ => do return { given := ← l.settle, pending := some (s, none) }
      | none, some f => l.flag f
      | none, none => .error .unknownArgument := by
  obtain ⟨htake, hdrop⟩ := cut_word hname [] (Or.inl rfl)
  rw [List.append_nil] at htake hdrop
  unfold Level.long
  simp only [htake, hdrop, String.ofList_toList]
  cases Setting.ofName? name <;> cases Flag.ofName? scope name <;> rfl

theorem long_valued (scope : Scope) (l : Level) {name : String} (hname : '=' ∉ name.toList)
    (v : String) : l.long scope (name.toList ++ '=' :: v.toList) =
      match Setting.ofName? name, Flag.ofName? scope name with
      | some s, _ => do return { given := ← (← l.settle).set s v }
      | none, some _ => .error .needlessValue
      | none, none => .error .unknownArgument := by
  obtain ⟨htake, hdrop⟩ := cut_word hname ('=' :: v.toList) (Or.inr rfl)
  unfold Level.long
  simp only [htake, hdrop, String.ofList_toList, List.tail?_cons, Option.map_some]
  cases Setting.ofName? name <;> cases Flag.ofName? scope name <;> rfl

namespace Stands

variable {l : Level} {scope : Scope} {done ms : List Mark} {s : Setting} {v n : String} {f : Flag}

theorem of_given (ms : List Mark) : Stands { given := summary ms } ms := ⟨rfl, rfl, rfl⟩

theorem joined (hl : Stands l done) (hfresh : ∀ m ∈ done, ¬m.Clashes (.value s v))
    (h : s.Accepts v) : l.long scope (s.word.toList ++ '=' :: v.toList) =
      .ok { given := summary (done ++ [.value s v]) } := by
  rw [long_valued scope l s.not_mem_word]
  simp [hl.settles, set_summary hfresh h, bind, Except.bind, pure, Except.pure]

theorem awaiting (hl : Stands l done) : l.long scope s.word.toList =
    .ok { given := summary done, pending := some (s, none) } := by
  rw [long_word scope l s.not_mem_word]
  simp [hl.settles]

/-- The value that was awaited has come.  It is not looked at yet. -/
theorem of_pending (hfresh : ∀ m ∈ done, ¬m.Clashes (.value s v)) (h : s.Accepts v) :
    Stands { given := summary done, pending := some (s, some v) } (done ++ [.value s v]) where
  waits := rfl
  settles := set_summary hfresh h
  name := by simp [summary, name?_append]

theorem flag (hl : Stands l done) (hfresh : ∀ m ∈ done, ¬m.Clashes (.flag f))
    (hhelp : f ≠ .help) (hversion : f ≠ .version) :
    l.flag f = .ok { given := summary (done ++ [.flag f]) } := by
  simp [Level.flag, hl.settles, raise_summary hfresh hhelp hversion, bind, Except.bind, pure,
    Except.pure]

theorem long (hl : Stands l done) (hfresh : ∀ m ∈ done, ¬m.Clashes (.flag f))
    (hf : (Mark.flag f).Suits scope) : l.long scope f.word.toList =
      .ok { given := summary (done ++ [.flag f]) } := by
  obtain ⟨hknown, hhelp, hversion⟩ := hf
  rw [long_word scope l f.not_mem_word]
  simp [Flag.ofName?_word hknown, hl.flag hfresh hhelp hversion]

/-- The letters of one word, one after the other. -/
theorem short {fs : List Flag} {cs : List Char} (hl : Stands l done)
    (h : List.Forall₂ (fun f c => f.letter? = some c) fs cs)
    (hsuits : ∀ f ∈ fs, (Mark.flag f).Suits scope)
    (honce : (done ++ fs.map Mark.flag).Pairwise (¬ Mark.Clashes · ·)) :
    ∃ l', Stands l' (done ++ fs.map .flag) ∧ l.short scope cs = .ok l' := by
  induction h generalizing l done with
  | nil =>
    refine ⟨l, ?_, rfl⟩
    simpa using hl
  | @cons f c fs cs hc hrest ih =>
    obtain ⟨hknown, hhelp, hversion⟩ := hsuits f List.mem_cons_self
    have hfresh : ∀ m ∈ done, ¬m.Clashes (.flag f) := fun m hm =>
      (List.pairwise_append.mp honce).2.2 m hm _ (by simp)
    have hflag := hl.flag hfresh hhelp hversion
    have hsplit : done ++ (f :: fs).map Mark.flag = (done ++ [.flag f]) ++ fs.map .flag := by simp
    rw [hsplit] at honce ⊢
    obtain ⟨l', hl', hshort⟩ := ih (.of_given (done ++ [.flag f]))
      (fun f' hf' => hsuits f' (List.mem_cons_of_mem _ hf')) honce
    refine ⟨l', hl', ?_⟩
    rw [Level.short, Flag.ofLetter?_letter hc hknown]
    simp only [hflag]
    exact hshort

theorem operand {verb : Verb} (hl : Stands l done) (hfresh : ∀ m ∈ done, ¬m.Clashes (.name n))
    (htakes : verb.takesName = true) :
    l.operand verb n = .ok { given := summary (done ++ [.name n]) } := by
  have hnone := name?_eq_none hfresh
  have hname : l.given.name = none := hl.name.trans hnone
  simp [Level.operand, htakes, hname, hl.settles, summary, value?_append, name?_append, hnone,
    List.count_append, bind, Except.bind, pure, Except.pure]

end Stands

/-! ### Shapes -/

theorem shape_long {arg : String} {body : List Char} (h : arg.toList = '-' :: '-' :: body)
    (hne : body ≠ []) : shape arg = .long body := by
  unfold shape
  split <;> simp_all

theorem shape_short {arg : String} {letters : List Char} (h : arg.toList = '-' :: letters)
    (hne : letters ≠ []) (hhyphen : letters.head? ≠ some '-') : shape arg = .short letters := by
  obtain ⟨c, rest, rfl⟩ := List.exists_cons_of_ne_nil hne
  have hc : '-' ≠ c := by simpa [eq_comm] using hhyphen
  unfold shape
  split <;> simp_all

theorem shape_plain {arg : String} (h : arg.toList.head? ≠ some '-') : shape arg = .plain := by
  unfold shape
  split <;> simp_all

theorem shape_of_isCommandWord {arg : String} (h : isCommandWord arg = true) :
    shape arg = .plain := by
  have hwords (verb : Verb) : shape verb.word = .plain := by
    cases verb <;> decide
  rw [isCommandWord, Bool.or_eq_true, decide_eq_true_eq] at h
  rcases h with rfl | h
  · decide
  · obtain ⟨verb, hverb⟩ := Option.isSome_iff_exists.mp h
    have hword := List.find?_some hverb
    rw [decide_eq_true_eq] at hword
    rw [← hword]
    exact hwords verb

theorem not_word_of_shape {arg : String} (h : shape arg ≠ .plain) :
    arg ≠ helpWord ∧ Verb.ofWord? arg = none := by
  have hword : ¬isCommandWord arg = true := fun hword => h (shape_of_isCommandWord hword)
  simpa [isCommandWord] using hword

/-! ### Reading -/

/-- What the two ways of reading, before the command and after it, have in common. -/
structure ReadsMarks {γ : Type} (scope : Scope)
    (read : Level → List String → Except Refusal γ) : Prop where
  long : ∀ {l arg body rest}, shape arg = .long body →
    read l (arg :: rest) = (l.long scope body >>= fun l => read l rest)
  short : ∀ {l arg letters rest}, shape arg = .short letters →
    read l (arg :: rest) = (l.short scope letters >>= fun l => read l rest)
  value : ∀ {l arg rest}, l.isAwaiting = true → shape arg = .plain →
    read l (arg :: rest) = read (l.value arg) rest
  operand : ∀ {verb l arg rest}, scope = .afterCommand verb → l.isAwaiting = false →
    shape arg = .plain → read l (arg :: rest) = (l.operand verb arg >>= fun l => read l rest)

theorem readsMarks_readBefore : ReadsMarks .beforeCommand readBefore where
  long := by
    intro l arg body rest hshape
    have hne : shape arg ≠ .plain := by simp [hshape]
    obtain ⟨hhelp, hverb⟩ := not_word_of_shape hne
    simp [readBefore, hhelp, hverb, hshape]
  short := by
    intro l arg letters rest hshape
    have hne : shape arg ≠ .plain := by simp [hshape]
    obtain ⟨hhelp, hverb⟩ := not_word_of_shape hne
    simp [readBefore, hhelp, hverb, hshape]
  value := by
    intro l arg rest hl hshape
    simp [readBefore, hl, hshape]
  operand := by
    intro verb l arg rest hscope
    cases hscope

theorem readsMarks_readAfter (verb : Verb) :
    ReadsMarks (.afterCommand verb) (readAfter verb) where
  long := by
    intro l arg body rest hshape
    simp [readAfter, hshape]
  short := by
    intro l arg letters rest hshape
    simp [readAfter, hshape]
  value := by
    intro l arg rest hl hshape
    simp [readAfter, hl, hshape]
  operand := by
    intro verb' l arg rest hscope hl hshape
    cases hscope
    simp [readAfter, hl, hshape]

section

variable {γ : Type} {scope : Scope} {read : Level → List String → Except Refusal γ} {l : Level}
  {done ms : List Mark} {ws : List String}

/-- Reading one spelling takes a level that stands for the marks so far to one that
    stands for its marks too. -/
theorem ReadsMarks.step (hread : ReadsMarks scope read) (hspelling : Spelling ws ms)
    (hl : Stands l done) (hsuits : ∀ m ∈ ms, m.Suits scope)
    (honce : (done ++ ms).Pairwise (¬ Mark.Clashes · ·)) (rest : List String) :
    ∃ l', Stands l' (done ++ ms) ∧ read l (ws ++ rest) = read l' rest := by
  have hfresh : ∀ m ∈ ms, ∀ m' ∈ done, ¬m'.Clashes m := fun m hm m' hm' =>
    (List.pairwise_append.mp honce).2.2 m' hm' m hm
  cases hspelling with
  | joined s v =>
    refine ⟨_, .of_given _, ?_⟩
    have haccepts : s.Accepts v := hsuits (.value s v) (by simp)
    have hlong : l.long scope _ = _ := hl.joined (hfresh _ (by simp)) haccepts
    have hshape : shape ("--" ++ s.word ++ "=" ++ v) = .long (s.word.toList ++ '=' :: v.toList) :=
      shape_long (by simp) (by simp)
    rw [List.singleton_append, hread.long hshape, hlong]
    rfl
  | @apart s v hv =>
    have haccepts : s.Accepts v := hsuits (.value s v) (by simp)
    refine ⟨_, .of_pending (hfresh _ (by simp)) haccepts, ?_⟩
    have hword : s.word.toList ≠ [] := by cases s <;> decide
    rw [List.cons_append, hread.long (shape_long (by simp) hword), hl.awaiting,
      List.singleton_append]
    exact hread.value rfl (shape_plain hv)
  | long f =>
    refine ⟨_, .of_given _, ?_⟩
    have hword : f.word.toList ≠ [] := by cases f <;> decide
    have hlong := hl.long (hfresh _ (by simp)) (hsuits (.flag f) (by simp))
    rw [List.singleton_append, hread.long (shape_long (by simp) hword), hlong]
    rfl
  | @letters fs cs h hne =>
    have hhyphen : cs.head? ≠ some '-' := by
      cases h with
      | nil => simp
      | @cons f c _ _ hc _ =>
        rintro heq
        obtain rfl : c = '-' := by simpa using heq
        cases f <;> cases hc
    obtain ⟨l', hl', hshort⟩ := hl.short h
      (fun f hf => hsuits _ (List.mem_map_of_mem hf)) honce
    refine ⟨l', hl', ?_⟩
    rw [List.singleton_append, hread.short (shape_short (by simp) hne hhyphen), hshort]
    rfl
  | @name n hn =>
    refine ⟨_, .of_given _, ?_⟩
    obtain ⟨verb, hscope, htakes⟩ := hsuits (.name n) (by simp)
    rw [List.singleton_append, hread.operand hscope hl.waits (shape_plain hn),
      hl.operand (hfresh _ (by simp)) htakes]
    rfl

theorem ReadsMarks.run (hread : ReadsMarks scope read) (hspells : Spells ws ms)
    (hl : Stands l done) (hsuits : ∀ m ∈ ms, m.Suits scope)
    (honce : (done ++ ms).Pairwise (¬ Mark.Clashes · ·)) (rest : List String) :
    ∃ l', Stands l' (done ++ ms) ∧ read l (ws ++ rest) = read l' rest := by
  induction hspells generalizing l done with
  | nil =>
    refine ⟨l, ?_, rfl⟩
    rw [List.append_nil]
    exact hl
  | @cons ws ws' ms ms' h h' ih =>
    rw [← List.append_assoc] at honce ⊢
    obtain ⟨l₁, hl₁, hrun₁⟩ := hread.step h hl (fun m hm => hsuits m (List.mem_append_left _ hm))
      (List.pairwise_append.mp honce).1 (ws' ++ rest)
    obtain ⟨l₂, hl₂, hrun₂⟩ := ih hl₁ (fun m hm => hsuits m (List.mem_append_right _ hm)) honce
    refine ⟨l₂, hl₂, ?_⟩
    rw [List.append_assoc, hrun₁, hrun₂]

end

/-- The command itself ends what is read before it. -/
theorem readBefore_word {l : Level} (hl : l.isAwaiting = false) (verb : Verb)
    (rest : List String) : readBefore l (verb.word :: rest) = .ok (l, some (verb, rest)) := by
  have hhelp : verb.word ≠ helpWord := by cases verb <;> decide
  simp [readBefore, hl, hhelp, Verb.ofWord?_word]

/-! ### The environment, and the whole -/

/-- A command with marks before and after it, as they may stand on a command line. -/
structure Arranged (cmd : Command) (before after : List Mark) : Prop where
  /-- Nothing is said twice that must not be, on whichever side. -/
  once : (before ++ after).Pairwise (¬ Mark.Clashes · ·)
  values : ∀ s v, .value s v ∈ before ++ after → s.Accepts v
  /-- Neither help nor the version is asked for. -/
  serious : ∀ f, .flag f ∈ before ++ after → f ≠ .help ∧ f ≠ .version
  /-- Verbosity is asked for on one side only. -/
  verbose : .flag .verbose ∉ before ∨ .flag .verbose ∉ after
  /-- The name of the container is the operand of the command. -/
  names : ∀ n, .name n ∉ before ∧ (.name n ∈ after ↔ cmd.name? = some n)
  ignoreBridge : .flag .ignoreBridge ∉ before ∧
    (.flag .ignoreBridge ∈ after ↔ cmd = .initialized true)

/-- The value of a setting: what some marks say, or else the environment. -/
def settingOf (env : Environment) (ms : List Mark) (s : Setting) : Option String :=
  (value? s ms).or (env.setting? s)

/-- What a command with some marks means. -/
def meaning (env : Environment) (cmd : Command) (ms : List Mark) : Invocation where
  command := cmd
  client := (settingOf env ms .client).getD "lxc"
  dataDir := (settingOf env ms .dataDir).getD "/var/lib/lxd"
  hostRoot := (settingOf env ms .hostRoot).getD "/"
  bridgeFile := (settingOf env ms .bridgeFile).getD "/etc/default/lxd-bridge"
  timeout := (settingOf env ms .timeout).map seconds
  json := decide (.flag .json ∈ ms)
  verbose := min 255 (ms.count (.flag .verbose))
  confined := env.snap.any (· ≠ "")

section

variable {env : Environment} {cmd : Command} {before after ms : List Mark}

theorem fromVariable_path (henv : ∀ s v, env.setting? s = some v → s.Accepts v) (s : Setting)
    (given : Option String) :
    fromVariable given (env.setting? s) pathValue = .ok (given.or (env.setting? s)) := by
  cases given with
  | some v => rfl
  | none =>
    cases hv : env.setting? s with
    | none => rfl
    | some v =>
      simp [fromVariable, pathValue_of_ne (henv s v hv).nonempty, Except.map]

theorem fromVariable_timeout (henv : ∀ s v, env.setting? s = some v → s.Accepts v)
    (given : Option String) :
    fromVariable (given.map seconds) env.timeout secondsValue =
      .ok ((given.or env.timeout).map seconds) := by
  cases given with
  | some v => rfl
  | none =>
    cases hv : env.timeout with
    | none => rfl
    | some v =>
      obtain ⟨hseconds, hlt⟩ := (henv .timeout v hv).inRange rfl
      simp [fromVariable, secondsValue_of_isSeconds hseconds hlt, Except.map]

/-- The environment fills in what is not said. -/
theorem withEnvironment_eq (henv : ∀ s v, env.setting? s = some v → s.Accepts v) {g : Given}
    {client dataDir hostRoot timeout : Option String}
    (hclient : g.client = client) (hdataDir : g.dataDir = dataDir)
    (hhostRoot : g.hostRoot = hostRoot) (htimeout : g.timeout = timeout.map seconds) :
    g.withEnvironment env = .ok { g with
      client := client.or env.client
      dataDir := dataDir.or env.dataDir
      hostRoot := hostRoot.or env.hostRoot
      timeout := (timeout.or env.timeout).map seconds } := by
  have hpath := fromVariable_path henv
  rw [Given.withEnvironment, hclient, hdataDir, hhostRoot, htimeout]
  rw [show env.client = env.setting? .client from rfl, hpath .client client,
    show env.dataDir = env.setting? .dataDir from rfl, hpath .dataDir dataDir,
    show env.hostRoot = env.setting? .hostRoot from rfl, hpath .hostRoot hostRoot,
    fromVariable_timeout henv timeout]
  rfl

/-- At most one side says what a setting is, so it does not matter which side is asked
    first. -/
theorem value?_or_comm (honce : (before ++ after).Pairwise (¬ Mark.Clashes · ·)) (s : Setting) :
    (value? s after).or (value? s before) = value? s (before ++ after) := by
  rw [value?_append]
  cases hafter : value? s after with
  | none => simp
  | some v =>
    have hnone : value? s before = none := by
      rw [value?, List.findSome?_eq_some_iff] at hafter
      obtain ⟨front, m, back, hsplit, hm, -⟩ := hafter
      have hvalue : m = .value s v := by
        cases m with
        | value s' v' => simpa [Mark.value?] using hm
        | flag f => cases hm
        | name n => cases hm
      apply value?_eq_none (v := v)
      intro m' hm'
      exact (List.pairwise_append.mp honce).2.2 m' hm' _ (by simp [hsplit, hvalue])
    simp [hnone]

theorem Arranged.suits_before (h : Arranged cmd before after) :
    ∀ m ∈ before, m.Suits .beforeCommand := by
  intro m hm
  have hmem : m ∈ before ++ after := List.mem_append_left _ hm
  cases m with
  | value s v => exact h.values s v hmem
  | flag f =>
    obtain ⟨hhelp, hversion⟩ := h.serious f hmem
    refine ⟨?_, hhelp, hversion⟩
    cases f with
    | ignoreBridge => exact absurd hm h.ignoreBridge.1
    | _ => rfl
  | name n => exact absurd hm (h.names n).1

theorem Arranged.suits_after (h : Arranged cmd before after) :
    ∀ m ∈ after, m.Suits (.afterCommand cmd.verb) := by
  intro m hm
  have hmem : m ∈ before ++ after := List.mem_append_right _ hm
  cases m with
  | value s v => exact h.values s v hmem
  | flag f =>
    obtain ⟨hhelp, hversion⟩ := h.serious f hmem
    refine ⟨?_, hhelp, hversion⟩
    cases f with
    | ignoreBridge =>
      rw [h.ignoreBridge.2.mp hm]
      rfl
    | version => exact absurd rfl hversion
    | _ => rfl
  | name n =>
    have hname := (h.names n).2.mp hm
    refine ⟨cmd.verb, rfl, ?_⟩
    cases cmd <;> first | rfl | cases hname

theorem mem_of_name? {n : String} (h : name? ms = some n) : .name n ∈ ms := by
  obtain ⟨front, m, back, rfl, hm, -⟩ := List.findSome?_eq_some_iff.mp h
  cases m with
  | value s v => cases hm
  | flag f => cases hm
  | name n' =>
    cases hm
    simp

theorem Arranged.name?_eq (h : Arranged cmd before after) : name? after = cmd.name? := by
  cases hafter : name? after with
  | some n => exact ((h.names n).2.mp (mem_of_name? hafter)).symm
  | none =>
    cases hcmd : cmd.name? with
    | none => rfl
    | some n =>
      rw [name?, List.findSome?_eq_none_iff] at hafter
      cases hafter _ ((h.names n).2.mpr hcmd)

theorem Arranged.command_eq (h : Arranged cmd before after) :
    command cmd.verb (summary after) = .ok cmd := by
  have hname : (summary after).name = cmd.name? := h.name?_eq
  have hbridge : (summary after).ignoreBridge = decide (cmd = .initialized true) := by
    simp [summary, h.ignoreBridge.2]
  unfold command
  rw [hname, hbridge]
  cases cmd with
  | initialized ignoreBridge => cases ignoreBridge <;> rfl
  | check name => rfl
  | fix name => rfl
  | _ => rfl

theorem Arranged.verbose_eq (h : Arranged cmd before after) :
    (if (summary after).verbose = 0 then (summary before).verbose else (summary after).verbose) =
      min 255 ((before ++ after).count (.flag .verbose)) := by
  rw [List.count_append]
  rcases h.verbose with hnone | hnone
  · have hzero := List.count_eq_zero.mpr hnone
    simp only [summary, hzero]
    split <;> omega
  · have hzero := List.count_eq_zero.mpr hnone
    simp [summary, hzero]

theorem Arranged.invocation_eq (henv : ∀ s v, env.setting? s = some v → s.Accepts v)
    (h : Arranged cmd before after) :
    invocation env cmd (summary before) (summary after) =
      .ok (meaning env cmd (before ++ after)) := by
  have hsides (s : Setting) : (value? s after <|> value? s before) = value? s (before ++ after) := by
    rw [← value?_or_comm h.once s, Option.orElse_eq_orElse, Option.orElse_eq_or]
  have htimeout : ((summary after).timeout <|> (summary before).timeout) =
      (value? .timeout (before ++ after)).map seconds := by
    rw [← hsides .timeout]
    unfold summary
    cases value? .timeout after <;> rfl
  have hset := withEnvironment_eq henv
    (g := {
      client := (summary after).client <|> (summary before).client
      dataDir := (summary after).dataDir <|> (summary before).dataDir
      hostRoot := (summary after).hostRoot <|> (summary before).hostRoot
      timeout := (summary after).timeout <|> (summary before).timeout })
    (hsides .client) (hsides .dataDir) (hsides .hostRoot) htimeout
  have hbridgeFile : ((summary after).bridgeFile <|> (summary before).bridgeFile) =
      settingOf env (before ++ after) .bridgeFile := by
    rw [settingOf, Environment.setting?, Option.or_none]
    exact hsides .bridgeFile
  have hjson : ((summary after).json || (summary before).json) =
      decide (.flag .json ∈ before ++ after) := by
    simp [summary, Bool.or_comm]
  have hconfined : env.isConfined = env.snap.any (· ≠ "") := by
    unfold Environment.isConfined
    cases env.snap <;> rfl
  unfold invocation
  rw [hset, hbridgeFile, hjson, h.verbose_eq, hconfined]
  rfl

/-- A command line with its options anywhere is understood, and what it means does not
    depend on where they stand or how they are written.  Each setting has the value that
    it is given, or else the one that the environment sets, or else its default; the
    rest is what the flags say, and whether the process is confined. -/
theorem parse_arrangement (env : Environment) (cmd : Command) (before after : List Mark)
    (front back : List String) (hfront : Spells front before) (hback : Spells back after)
    (harranged : Arranged cmd before after)
    (henv : ∀ s v, env.setting? s = some v → s.Accepts v) :
    parse env (front ++ cmd.verb.word :: back) = .ok (meaning env cmd (before ++ after)) := by
  obtain ⟨hbefore, hafter, -⟩ := List.pairwise_append.mp harranged.once
  obtain ⟨l, hl, hread⟩ := readsMarks_readBefore.run hfront (.of_given [])
    harranged.suits_before hbefore (cmd.verb.word :: back)
  obtain ⟨l', hl', hread'⟩ := (readsMarks_readAfter cmd.verb).run hback (.of_given [])
    harranged.suits_after hafter []
  have hfront : readBefore {} (front ++ cmd.verb.word :: back) =
      .ok (l, some (cmd.verb, back)) := hread.trans (readBefore_word hl.waits _ _)
  have hback : readAfter cmd.verb {} back = .ok l' := by
    rw [List.append_nil] at hread'
    exact hread'
  have hset (ms : List Mark) := withEnvironment_eq henv (g := summary ms) rfl rfl rfl rfl
  unfold parse
  simp only [hfront, hback, hl.settles, hl'.settles, hset, harranged.command_eq,
    harranged.invocation_eq henv, List.nil_append, bind, Except.bind]

end

theorem accepts_digits {v : String} (hne : v ≠ "") (hall : v.toList.all Char.isDigit = true)
    (hlt : seconds v < 2 ^ 64) (s : Setting) : s.Accepts v :=
  ⟨hne, fun _ => ⟨⟨v.toList, Or.inl rfl, by simpa using hne, List.all_eq_true.mp hall⟩, hlt⟩⟩

/-- Options on both sides, with a value and an operand that look like commands, and an
    environment that sets two of them as well. -/
theorem parse_arrangement_check :
    let env : Environment :=
      { client := some "other", dataDir := some "/srv", timeout := some "5", snap := some "tools" }
    parse env ["--lxc", "list", "-vv", "check", "--timeout=007", "fix", "--json"] =
      .ok { command := .check (some "fix"), client := "list", dataDir := "/srv",
            timeout := some 7, json := true, verbose := 2, confined := true } := by
  intro env
  have hfront : Spells ["--lxc", "list", "-vv"]
      [.value .client "list", .flag .verbose, .flag .verbose] :=
    .cons (.apart .client (by decide))
      (.cons (.letters (.cons rfl (.cons rfl .nil)) (by decide)) .nil)
  have hback : Spells ["--timeout=007", "fix", "--json"]
      [.value .timeout "007", .name "fix", .flag .json] :=
    .cons (.joined .timeout "007") (.cons (.name (by decide)) (.cons (.long .json) .nil))
  have harranged : Arranged (.check (some "fix"))
      [.value .client "list", .flag .verbose, .flag .verbose]
      [.value .timeout "007", .name "fix", .flag .json] := by
    refine ⟨?_, ?_, ?_, ?_, ?_, ?_⟩
    · simp [Mark.Clashes]
    · intro s v hmem
      have hv : v = "list" ∧ s = .client ∨ v = "007" ∧ s = .timeout := by
        simpa [and_comm] using hmem
      rcases hv with ⟨rfl, rfl⟩ | ⟨rfl, -⟩
      · exact ⟨by decide, nofun⟩
      · exact accepts_digits (by decide) rfl (by decide) s
    · intro f hmem
      have hf : f = .verbose ∨ f = .json := by simpa using hmem
      rcases hf with rfl | rfl <;> simp
    · right
      simp
    · intro n
      simp [Command.name?, eq_comm]
    · simp
  have henv : ∀ s v, env.setting? s = some v → s.Accepts v := by
    intro s v hv
    cases s with
    | client | dataDir =>
      cases hv
      exact ⟨by decide, nofun⟩
    | timeout =>
      cases hv
      exact accepts_digits (by decide) rfl (by decide) .timeout
    | hostRoot | bridgeFile => cases hv
  refine (parse_arrangement env _ _ _ _ _ hfront hback harranged henv).trans ?_
  decide

end CommandLine

end BuildTargets
