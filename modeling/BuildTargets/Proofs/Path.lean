/-
  BuildTargets/Proofs/Path.lean
  =============================
  **The names of a path, and what joining and lowering does to them.**

  A path is cut at its slashes.  The last field survives being joined to a base
  and being seen from below the root (`lastField_join`, `lastField_belowRoot`),
  and the path of an entry of a directory has just one name more than that of
  the directory (`HostView.path_entry`, `names_entry`).
-/
import BuildTargets.HostView
import BuildTargets.Proofs.Text.Raw

namespace BuildTargets

namespace Text

section Fields

variable {α : Type} {sep : α} {fields : List (List α)}

theorem split_append [DecidableEq α] (sep : α) (a b : List α) :
    split sep (a ++ sep :: b) = split sep a ++ split sep b := by
  induction a with
  | nil => exact split_cons_sep sep b
  | cons c a ih =>
    by_cases hc : c = sep
    · subst hc
      rw [List.cons_append, split_cons_sep, split_cons_sep, ih]
      rfl
    · obtain ⟨g, gs, hs, hcons⟩ := split_cons_ne hc (a ++ sep :: b)
      obtain ⟨g', gs', hs', hcons'⟩ := split_cons_ne hc a
      rw [ih, hs', List.cons_append, List.cons.injEq] at hs
      rw [List.cons_append, hcons, hcons', ← hs.1, ← hs.2]
      rfl

theorem joinWith_cons (hne : fields ≠ []) (field : List α) :
    joinWith sep (field :: fields) = field ++ sep :: joinWith sep fields := by
  cases fields with
  | nil => exact absurd rfl hne
  | cons g rest => rfl

theorem joinWith_concat (hne : fields ≠ []) (field : List α) :
    joinWith sep (fields ++ [field]) = joinWith sep fields ++ sep :: field := by
  induction fields with
  | nil => exact absurd rfl hne
  | cons g rest ih =>
    by_cases hrest : rest = []
    · subst hrest
      rfl
    · have hmore : rest ++ [field] ≠ [] := by simp
      rw [List.cons_append, joinWith_cons hmore, ih hrest, joinWith_cons hrest, List.append_assoc]
      rfl

/-- Fields that are written one after the other are found again. -/
theorem split_joinWith [DecidableEq α] (hne : fields ≠ []) (h : ∀ field ∈ fields, sep ∉ field) :
    split sep (joinWith sep fields) = fields := by
  induction fields with
  | nil => exact absurd rfl hne
  | cons field rest ih =>
    have hfield := split_eq_singleton (h field List.mem_cons_self)
    by_cases hrest : rest = []
    · subst hrest
      exact hfield
    · rw [joinWith_cons hrest, split_append, hfield,
        ih hrest fun g hg => h g (List.mem_cons_of_mem _ hg)]
      rfl

theorem mem_of_mem_joinWith {c : α} (hc : c ∈ joinWith sep fields) :
    c = sep ∨ ∃ field ∈ fields, c ∈ field := by
  induction fields with
  | nil => cases hc
  | cons field rest ih =>
    by_cases hrest : rest = []
    · subst hrest
      exact Or.inr ⟨field, List.mem_cons_self, hc⟩
    · rw [joinWith_cons hrest, List.mem_append, List.mem_cons] at hc
      rcases hc with hc | rfl | hc
      · exact Or.inr ⟨field, List.mem_cons_self, hc⟩
      · exact Or.inl rfl
      · exact (ih hc).imp id fun ⟨g, hg, hcg⟩ => ⟨g, List.mem_cons_of_mem _ hg, hcg⟩

theorem mem_joinWith {c : α} {field : List α} (hfield : field ∈ fields) (hc : c ∈ field) :
    c ∈ joinWith sep fields := by
  induction fields with
  | nil => cases hfield
  | cons g rest ih =>
    by_cases hrest : rest = []
    · subst hrest
      rw [List.mem_singleton] at hfield
      rw [← hfield]
      exact hc
    · rw [joinWith_cons hrest, List.mem_append, List.mem_cons]
      rcases List.mem_cons.mp hfield with rfl | hfield
      · exact Or.inl hc
      · exact Or.inr (Or.inr (ih hfield))

end Fields

theorem dropWhile_concat {α : Type} {p : α → Bool} {cs : List α} {c : α} (hc : p c = false) :
    (cs ++ [c]).dropWhile p = cs.dropWhile p ++ [c] := by
  rw [List.dropWhile_append]
  split
  · next hall => simp_all
  · rfl

/-- Stripping does not go past the last item that stays. -/
theorem strip_concat {α : Type} {p : α → Bool} {cs : List α} {c : α} (hc : p c = false) :
    strip p (cs ++ [c]) = cs.dropWhile p ++ [c] := by
  rw [strip, dropWhile_concat hc]
  refine stripEnd_eq_self fun d hd => ?_
  rw [List.getLast?_concat, Option.some.injEq] at hd
  rw [← hd, hc]

end Text

namespace Path

variable {path base leaf : String} {name : List Char}

theorem toList_slash : ("/" : String).toList = ['/'] := rfl

theorem length_le_utf8ByteSize (cs : List Char) :
    cs.length ≤ (String.ofList cs).utf8ByteSize := by
  induction cs with
  | nil => exact Nat.zero_le _
  | cons c cs ih =>
    have happend : String.ofList (c :: cs) = String.singleton c ++ String.ofList cs := by
      rw [← String.toList_inj]
      simp
    have hpos := Char.utf8Size_pos c
    rw [happend, String.utf8ByteSize_append, String.utf8ByteSize_singleton, List.length_cons]
    omega

/-- What follows the last slash of a path. -/
def lastField (path : String) : Option (List Char) := (Text.split '/' path.toList).getLast?

theorem lastField_append (a b : String) : lastField (a ++ "/" ++ b) = lastField b := by
  have hne := Text.split_ne_nil '/' b.toList
  rw [lastField, lastField, String.toList_append, String.toList_append, toList_slash,
    List.append_assoc, List.singleton_append, Text.split_append, List.getLast?_append,
    List.getLast?_eq_some_getLast hne]
  rfl

theorem lastField_join (base leaf : String) : lastField (join base leaf) = lastField leaf := by
  unfold join
  split
  · rfl
  · split
    · next hbase =>
      rw [Bool.or_eq_true, decide_eq_true_eq, decide_eq_true_eq] at hbase
      rcases hbase with rfl | hlast
      · rw [String.empty_append]
      · obtain ⟨front, hfront⟩ := List.getLast?_eq_some_iff.mp hlast
        have hslash : base = String.ofList front ++ "/" := by
          rw [← String.toList_inj, hfront, String.toList_append, String.toList_ofList]
          rfl
        rw [hslash]
        exact lastField_append _ leaf
    · exact lastField_append base leaf

theorem lastField_belowRoot (h : lastField path = some name) (hname : isFiller name = false) :
    lastField (belowRoot path) = some name := by
  unfold belowRoot
  split
  · obtain ⟨front, hfront⟩ := List.getLast?_eq_some_iff.mp h
    rw [hfront, Text.strip_concat hname, lastField, String.toList_ofList, Text.split_joinWith]
    · exact List.getLast?_concat ..
    · simp
    · intro field hfield
      have hmem : field ∈ Text.split '/' path.toList := by
        rw [hfront]
        rcases List.mem_append.mp hfield with hmem | hmem
        · exact List.mem_append_left _ ((List.dropWhile_sublist _).mem hmem)
        · exact List.mem_append_right _ hmem
      exact Text.sep_not_mem_of_mem_split hmem
  · exact h

theorem ne_nil_of_not_filler (hname : isFiller name = false) : name ≠ [] := by
  rintro rfl
  cases hname

theorem no_slash_of_lastField (h : lastField path = some name) : '/' ∉ name := by
  obtain ⟨front, hfront⟩ := List.getLast?_eq_some_iff.mp h
  have hmem : name ∈ Text.split '/' path.toList := by
    rw [hfront]
    exact List.mem_append_right _ List.mem_cons_self
  exact Text.sep_not_mem_of_mem_split hmem

/-- A path ends as its last field does. -/
theorem getLast?_toList (h : lastField path = some name) (hne : name ≠ []) :
    path.toList.getLast? = name.getLast? := by
  obtain ⟨front, hfront⟩ := List.getLast?_eq_some_iff.mp h
  have hjoin := Text.joinWith_split '/' path.toList
  rw [hfront] at hjoin
  by_cases hempty : front = []
  · subst hempty
    rw [← hjoin]
    rfl
  · rw [Text.joinWith_concat hempty] at hjoin
    rw [← hjoin, List.getLast?_append, List.getLast?_cons_of_ne_nil hne,
      List.getLast?_eq_some_getLast hne]
    rfl

theorem toList_ne_nil_of_lastField (h : lastField path = some name) (hne : name ≠ []) :
    path.toList ≠ [] := by
  intro hempty
  have hlast := getLast?_toList h hne
  rw [hempty, List.getLast?_eq_some_getLast hne] at hlast
  cases hlast

/-- The names to go through on a path that a text spells. -/
theorem names_ofText (path : String) :
    (Route.ofPath path).names = ((names path).filter (· ≠ "")).map RawText.ofText := by
  have hempty (name : String) : decide ((RawText.ofText name).bytes ≠ []) = decide (name ≠ "") := by
    simp [RawText.bytes_ofText_eq_nil_iff]
  have hfields : (RawText.ofText path).fields = (names path).map RawText.ofText := by
    rw [RawText.fields_ofText, names, List.map_map]
    rfl
  rw [Route.ofPath, hfields, List.filter_map]
  simp only [Function.comp_def, hempty]

/-- How a path that a text spells is gone. -/
theorem ofPath_ofText (path : String) : Route.ofPath path =
    ⟨isAbsolute path, ((names path).filter (· ≠ "")).map RawText.ofText,
      path.toList.getLast? = some '/'⟩ := by
  rw [← names_ofText, Route.ofPath, isAbsolute]
  simp only [RawText.head?_ofText, RawText.getLast?_ofText]

/-- The last field of a path, if it is not empty, is the last name to go
    through. -/
theorem names_of_lastField (h : lastField path = some name) (hne : name ≠ []) :
    (∃ front, (Route.ofPath path).names = front ++ [RawText.ofText (String.ofList name)]) ∧
      (Route.ofPath path).slash = false := by
  obtain ⟨front, hfront⟩ := List.getLast?_eq_some_iff.mp h
  constructor
  · have hname : String.ofList name ≠ "" := by
      rw [Ne, ← String.toList_inj, String.toList_ofList]
      exact hne
    refine ⟨((front.map String.ofList).filter (· ≠ "")).map RawText.ofText, ?_⟩
    rw [names_ofText, names, hfront, List.map_append, List.filter_append, List.map_append]
    simp [hname]
  · refine decide_eq_false fun hlast => no_slash_of_lastField h ?_
    rw [RawText.getLast?_ofText, getLast?_toList h hne] at hlast
    exact List.mem_of_getLast? hlast

/-! ### Entries of a directory -/

variable {dir entry : String}

theorem split_entry (dir : String) (hentry : '/' ∉ entry.toList) :
    Text.split '/' (dir ++ "/" ++ entry).toList = Text.split '/' dir.toList ++ [entry.toList] := by
  rw [String.toList_append, String.toList_append, toList_slash, List.append_assoc,
    List.singleton_append, Text.split_append, Text.split_eq_singleton hentry]

/-- The path of an entry of a directory has one name more than that of the
    directory. -/
theorem names_child (dir : RawText) {entry : RawText} (hentry : RawText.slash ∉ entry.bytes)
    (hne : entry.bytes ≠ []) :
    (Route.ofPath (dir.child entry)).names = (Route.ofPath dir).names ++ [entry] := by
  have hfields : (dir.child entry).fields = dir.fields ++ [entry] := by
    rw [RawText.fields, RawText.child, Text.split_append, Text.split_eq_singleton hentry,
      List.map_append]
    rfl
  rw [Route.ofPath, hfields, List.filter_append]
  simp [hne, Route.ofPath]

theorem names_entry (dir : String) (hentry : '/' ∉ entry.toList) (hne : entry ≠ "") :
    (Route.ofPath (dir ++ "/" ++ entry)).names = (Route.ofPath dir).names ++ [.ofText entry] := by
  rw [RawText.ofText_entry, names_child]
  · rwa [RawText.slash_mem_ofText_iff]
  · rwa [Ne, RawText.bytes_ofText_eq_nil_iff]

theorem belowRoot_entry (habsolute : isAbsolute dir = true) (hdir : lastField dir = some name)
    (hname : isFiller name = false) (hentry : '/' ∉ entry.toList)
    (hfiller : isFiller entry.toList = false) :
    belowRoot (dir ++ "/" ++ entry) = belowRoot dir ++ "/" ++ entry ∧
      (belowRoot dir).toList ≠ [] := by
  obtain ⟨front, hfront⟩ := List.getLast?_eq_some_iff.mp hdir
  have hslash : (dir ++ "/" ++ entry).toList = dir.toList ++ '/' :: entry.toList := by
    simp [toList_slash]
  have habsolute' : isAbsolute (dir ++ "/" ++ entry) = true := by
    rw [isAbsolute, decide_eq_true_eq] at habsolute ⊢
    rw [hslash, List.head?_append, habsolute]
    rfl
  have hstay : front.dropWhile isFiller ++ [name] ≠ [] := by simp
  constructor
  · rw [belowRoot, if_pos habsolute', split_entry dir hentry, Text.strip_concat hfiller, belowRoot,
      if_pos habsolute, hfront, Text.strip_concat hname, Text.dropWhile_concat hname,
      Text.joinWith_concat hstay, ← String.toList_inj]
    simp [toList_slash]
  · rw [belowRoot, if_pos habsolute, hfront, Text.strip_concat hname, String.toList_ofList]
    by_cases hempty : front.dropWhile isFiller = []
    · rw [hempty]
      exact ne_nil_of_not_filler hname
    · rw [Text.joinWith_concat hempty]
      simp

theorem isAbsolute_entry (hleaf : leaf.toList ≠ []) (entry : String) :
    isAbsolute (leaf ++ "/" ++ entry) = isAbsolute leaf := by
  have hslash : (leaf ++ "/" ++ entry).toList = leaf.toList ++ '/' :: entry.toList := by
    simp [toList_slash]
  rw [isAbsolute, isAbsolute, hslash, List.head?_append, List.head?_eq_some_head hleaf]
  rfl

theorem join_entry (base : String) (hleaf : leaf.toList ≠ []) (entry : String) :
    join base (leaf ++ "/" ++ entry) = join base leaf ++ "/" ++ entry := by
  unfold join
  rw [isAbsolute_entry hleaf]
  split
  · rfl
  · split
    · simp [String.append_assoc]
    · simp [String.append_assoc]

/-- A path that ends in a name is a directory for what is joined to it. -/
theorem join_of_lastField (h : lastField base = some name) (hname : isFiller name = false)
    (hleaf : isAbsolute leaf = false) : join base leaf = base ++ "/" ++ leaf := by
  have hne := ne_nil_of_not_filler hname
  have hlast := getLast?_toList h hne
  have hempty : base ≠ "" := by
    rw [Ne, ← String.toList_eq_nil_iff]
    exact toList_ne_nil_of_lastField h hne
  have hslash : base.toList.getLast? ≠ some '/' := by
    rw [hlast]
    exact fun heq => no_slash_of_lastField h (List.mem_of_getLast? heq)
  rw [join, hleaf, if_neg Bool.false_ne_true, if_neg (by simp [hempty, hslash])]

end Path

/-- The host path of an entry of a directory. -/
theorem HostView.path_entry (h : HostView) {dir entry : String} {name : List Char}
    (habsolute : Path.isAbsolute dir = true) (hdir : Path.lastField dir = some name)
    (hname : Path.isFiller name = false) (hentry : '/' ∉ entry.toList)
    (hfiller : Path.isFiller entry.toList = false) :
    h.path (dir ++ "/" ++ entry) = h.path dir ++ "/" ++ entry := by
  obtain ⟨hbelow, hleaf⟩ := Path.belowRoot_entry habsolute hdir hname hentry hfiller
  rw [path, hbelow, Path.join_entry h.root hleaf, path]

/-- A directory that is given by a relative path has its entries below it, too. -/
theorem HostView.path_entry_of_lastField (h : HostView) {dir entry : String} {name : List Char}
    (hdir : Path.lastField dir = some name) (hname : Path.isFiller name = false)
    (hentry : '/' ∉ entry.toList) (hfiller : Path.isFiller entry.toList = false) :
    h.path (dir ++ "/" ++ entry) = h.path dir ++ "/" ++ entry := by
  cases habsolute : Path.isAbsolute dir with
  | true => exact h.path_entry habsolute hdir hname hentry hfiller
  | false =>
    have hleaf := Path.toList_ne_nil_of_lastField hdir (Path.ne_nil_of_not_filler hname)
    rw [path, path, Path.belowRoot, Path.belowRoot, Path.isAbsolute_entry hleaf, habsolute,
      if_neg Bool.false_ne_true, if_neg Bool.false_ne_true, Path.join_entry h.root hleaf]

end BuildTargets
