/-
  BuildTargets/Proofs/Path/Components.lean
  ========================================
  **Paths by their components.**

  Paths are compared component by component: slashes that are repeated or stand at
  the end do not count, nor does `.` but at the start of a relative path, and `..` is
  a component like any other.  Joining appends components unless the leaf is absolute
  (`components_join`), and what is seen from below the root never is
  (`isAbsolute_belowRoot`); so a logical path stays below the root of the host
  however it is spelled (`HostView.components_path`).
-/
import BuildTargets.Proofs.Path

namespace BuildTargets

namespace Text

variable {α : Type} {p : α → Bool} {cs : List α}

theorem filter_eq_nil_of_all (h : ∀ c ∈ cs, p c = true) : cs.filter (!p ·) = [] := by
  rw [List.filter_eq_nil_iff]
  intro c hc
  simp [h c hc]

/-- Nothing is lost by stripping but items of the class. -/
theorem filter_strip (p : α → Bool) (cs : List α) :
    (strip p cs).filter (!p ·) = cs.filter (!p ·) := by
  obtain ⟨front, back, hcs, hfront, hback⟩ := exists_strip p cs
  have hfilter := congrArg (List.filter (!p ·)) hcs
  rw [List.filter_append, List.filter_append, filter_eq_nil_of_all hfront,
    filter_eq_nil_of_all hback, List.nil_append, List.append_nil] at hfilter
  exact hfilter.symm

/-- What is written field by field starts as its first field does. -/
theorem head?_joinWith {sep : Char} {field : List Char} {rest : List (List Char)}
    (hne : field ≠ []) : (joinWith sep (field :: rest)).head? = field.head? := by
  by_cases hrest : rest = []
  · subst hrest
    rfl
  · rw [joinWith_cons hrest, List.head?_append, List.head?_eq_some_head hne]
    rfl

end Text

namespace Path

variable {base leaf path : String}

/-! ### Components -/

/-- A step of a path, as it counts when paths are compared. -/
inductive Component where
  /-- The slash that an absolute path starts with. -/
  | root
  /-- The `.` that a relative path starts with. -/
  | here
  | up
  | name (text : String)
deriving DecidableEq, Repr

def Component.ofStep (step : String) : Component := if step = ".." then up else name step

/-- What a path starts with, if that is not a name. -/
def start (path : String) : List Component :=
  if isAbsolute path then [.root]
  else if (Text.split '/' path.toList).head? = some ['.'] then [.here]
  else []

def components (path : String) : List Component := start path ++ (steps path).map .ofStep

/-- Neither of two paths is the other one, or an ancestor of it. -/
def Apart (path other : String) : Prop :=
  ¬ components path <+: components other ∧ ¬ components other <+: components path

/-- A name that is one step down. -/
structure IsOrdinary (name : String) : Prop where
  ne_empty : name ≠ ""
  ne_stay : name ≠ "."
  ne_up : name ≠ ".."
  no_slash : '/' ∉ name.toList

instance (name : String) : Decidable (IsOrdinary name) :=
  decidable_of_iff (name ≠ "" ∧ name ≠ "." ∧ name ≠ ".." ∧ '/' ∉ name.toList)
    ⟨fun ⟨h₁, h₂, h₃, h₄⟩ => ⟨h₁, h₂, h₃, h₄⟩, fun ⟨h₁, h₂, h₃, h₄⟩ => ⟨h₁, h₂, h₃, h₄⟩⟩

theorem start_of_isAbsolute (h : isAbsolute path = true) : start path = [.root] := if_pos h

theorem components_of_isAbsolute (h : isAbsolute path = true) :
    components path = .root :: (steps path).map .ofStep := by
  rw [components, start_of_isAbsolute h]
  rfl

theorem isFiller_ofList_iff {field : List Char} :
    isFiller field = true ↔ String.ofList field = "" ∨ String.ofList field = "." := by
  have hdot : String.ofList field = "." ↔ field = ['.'] := by
    rw [← String.toList_inj, String.toList_ofList]
    rfl
  rw [isFiller, Bool.or_eq_true, decide_eq_true_eq, decide_eq_true_eq, String.ofList_eq_empty_iff,
    hdot]

/-- The steps of a path are its names, but for those that lead nowhere. -/
theorem steps_eq_filter (path : String) :
    steps path = (names path).filter fun name => name ≠ "" ∧ name ≠ "." := by
  rw [steps, names, List.filter_map]
  congr 1
  refine List.filter_congr fun field _ => ?_
  rw [Bool.eq_iff_iff]
  simp [← Bool.not_eq_true, isFiller_ofList_iff]

/-! ### Joining -/

/-- What is joined to a base comes after a slash. -/
theorem exists_join_eq (hbase : base ≠ "") (hleaf : isAbsolute leaf = false) :
    ∃ front, (join base leaf).toList = front ++ '/' :: leaf.toList ∧
      (base.toList = front ++ ['/'] ∨ base.toList = front ∧ front ≠ []) := by
  rw [join, hleaf, if_neg Bool.false_ne_true]
  split
  · next h =>
    rw [Bool.or_eq_true, decide_eq_true_eq, decide_eq_true_eq] at h
    obtain ⟨front, hfront⟩ := List.getLast?_eq_some_iff.mp (h.resolve_left hbase)
    exact ⟨front, by simp [hfront], Or.inl hfront⟩
  · exact ⟨base.toList, by simp [toList_slash], Or.inr ⟨rfl, by simpa using hbase⟩⟩

theorem isAbsolute_join (hbase : base ≠ "") (hleaf : isAbsolute leaf = false) :
    isAbsolute (join base leaf) = isAbsolute base := by
  obtain ⟨front, hjoin, hfront⟩ := exists_join_eq hbase hleaf
  rw [isAbsolute, isAbsolute, hjoin, List.head?_append]
  rcases hfront with hfront | ⟨hfront, hne⟩
  · rw [hfront, List.head?_append]
    rfl
  · rw [hfront, List.head?_eq_some_head hne]
    rfl

theorem start_join (hbase : base ≠ "") (hleaf : isAbsolute leaf = false) :
    start (join base leaf) = start base := by
  have habsolute := isAbsolute_join hbase hleaf
  obtain ⟨front, hjoin, hfront⟩ := exists_join_eq hbase hleaf
  have hne := Text.split_ne_nil '/' front
  have hhead (rest : List (List Char)) :
      (Text.split '/' front ++ rest).head? = (Text.split '/' front).head? := by
    rw [List.head?_append, List.head?_eq_some_head hne]
    rfl
  rw [start, start, habsolute, hjoin, Text.split_append, hhead]
  rcases hfront with hfront | ⟨hfront, -⟩
  · rw [hfront, Text.split_append, hhead]
  · rw [hfront]

theorem steps_join (hbase : base ≠ "") (hleaf : isAbsolute leaf = false) :
    steps (join base leaf) = steps base ++ steps leaf := by
  obtain ⟨front, hjoin, hfront⟩ := exists_join_eq hbase hleaf
  rw [steps, steps, steps, hjoin, Text.split_append, List.filter_append, List.map_append]
  rcases hfront with hfront | ⟨hfront, -⟩
  · have hslash : Text.split '/' base.toList = Text.split '/' front ++ [[]] := by
      rw [hfront, Text.split_append]
      rfl
    rw [hslash, List.filter_append, List.map_append]
    simp [isFiller]
  · rw [hfront]

/-- A relative path adds its components to those of what it is joined to. -/
theorem components_join (hbase : base ≠ "") (hleaf : isAbsolute leaf = false) :
    components (join base leaf) = components base ++ (steps leaf).map .ofStep := by
  rw [components, components, start_join hbase hleaf, steps_join hbase hleaf, List.map_append,
    List.append_assoc]

/-! ### Ordinary names -/

theorem IsOrdinary.not_absolute {name : String} (h : IsOrdinary name) :
    isAbsolute name = false := by
  rw [isAbsolute, decide_eq_false_iff_not]
  exact fun hhead => h.no_slash (List.mem_of_head? hhead)

theorem IsOrdinary.not_filler {name : String} (h : IsOrdinary name) :
    isFiller name.toList = false := by
  rw [← Bool.not_eq_true, isFiller_ofList_iff, String.ofList_toList, not_or]
  exact ⟨h.ne_empty, h.ne_stay⟩

theorem IsOrdinary.steps_eq {name : String} (h : IsOrdinary name) : steps name = [name] := by
  rw [steps, Text.split_eq_singleton h.no_slash]
  simp [h.not_filler]

/-- An ordinary name is a component of its own, below whatever it is joined to. -/
theorem IsOrdinary.components_join {name : String} (h : IsOrdinary name) (base : String) :
    components (join base name) = components base ++ [.name name] := by
  have hstep : Component.ofStep name = .name name := if_neg h.ne_up
  by_cases hbase : base = ""
  · subst hbase
    have hjoin : join "" name = name := by simp [join, h.not_absolute]
    have hstart : start name = [] := by
      have hne : name.toList ≠ ['.'] := fun heq => by
        have := h.not_filler
        simp [heq, isFiller] at this
      rw [start, h.not_absolute, Text.split_eq_singleton h.no_slash]
      simp [hne]
    rw [hjoin, components, hstart, h.steps_eq, List.map_singleton, hstep]
    rfl
  · rw [Path.components_join hbase h.not_absolute, h.steps_eq, List.map_singleton, hstep]

/-! ### Below the root -/

/-- The fields that are left of an absolute path below the root. -/
theorem split_belowRoot (h : isAbsolute path = true) :
    Text.split '/' (belowRoot path).toList =
      match Text.strip isFiller (Text.split '/' path.toList) with
      | [] => [[]]
      | fields => fields := by
  rw [belowRoot, if_pos h, String.toList_ofList]
  split
  · next hnil => rw [hnil]; rfl
  · next hne =>
    refine Text.split_joinWith hne fun field hfield => ?_
    exact Text.sep_not_mem_of_mem_split (Text.mem_of_mem_strip hfield)

theorem steps_belowRoot (h : isAbsolute path = true) : steps (belowRoot path) = steps path := by
  rw [steps, steps, split_belowRoot h, ← Text.filter_strip isFiller (Text.split '/' path.toList)]
  split
  · next hnil => rw [hnil]; rfl
  · rfl

/-- What is seen from below the root does not start at the root. -/
theorem isAbsolute_belowRoot (h : isAbsolute path = true) :
    isAbsolute (belowRoot path) = false := by
  rw [isAbsolute, decide_eq_false_iff_not, belowRoot, if_pos h, String.toList_ofList]
  cases hfields : Text.strip isFiller (Text.split '/' path.toList) with
  | nil => simp [Text.joinWith]
  | cons field rest =>
    have hfield : isFiller field = false := by
      cases hfiller : isFiller field with
      | false => rfl
      | true => exact absurd (by rw [hfields]; rfl) (Text.head?_strip field hfiller)
    have hslash : '/' ∉ field := Text.sep_not_mem_of_mem_split
      (Text.mem_of_mem_strip (by rw [hfields]; exact List.mem_cons_self ..))
    intro hhead
    rw [Text.head?_joinWith (ne_nil_of_not_filler hfield)] at hhead
    exact hslash (List.mem_of_head? hhead)

/-! ### Spellings -/

/-- The absolute path that is spelled field by field. -/
def ofFields (fields : List String) : String :=
  String.ofList ('/' :: Text.joinWith '/' (fields.map String.toList))

theorem steps_ofFields {fields : List String} (h : ∀ field ∈ fields, '/' ∉ field.toList) :
    steps (ofFields fields) = fields.filter fun name => name ≠ "" ∧ name ≠ "." := by
  have hnames : names (ofFields fields) = "" :: if fields = [] then [""] else fields := by
    rw [names, ofFields, String.toList_ofList, Text.split_cons_sep]
    split
    · next hnil =>
      subst hnil
      rfl
    · next hne =>
      rw [Text.split_joinWith (by simpa using hne)]
      · simp
      · intro field hfield
        obtain ⟨name, hname, rfl⟩ := List.mem_map.mp hfield
        exact h name hname
  rw [steps_eq_filter, hnames]
  split
  · next hnil => simp [hnil]
  · simp

/-! ### Paths apart -/

theorem apart_of_ne {other : String} {top rest rest' : List Component} {c c' : Component}
    (hne : c ≠ c') (hpath : components path = top ++ c :: rest)
    (hother : components other = top ++ c' :: rest') : Apart path other := by
  rw [Apart, hpath, hother, List.prefix_append_right_inj, List.prefix_append_right_inj,
    List.cons_prefix_cons, List.cons_prefix_cons]
  exact ⟨fun h => hne h.1, fun h => hne h.1.symm⟩

end Path

/-! ### The layout of a host -/

namespace HostView

open BuildTargets.Path

variable (h : HostView)

theorem components_path {logical : String} (hroot : h.root ≠ "")
    (hlogical : isAbsolute logical = true) :
    components (h.path logical) = components h.root ++ (components logical).tail := by
  rw [path, components_join hroot (isAbsolute_belowRoot hlogical), steps_belowRoot hlogical,
    components_of_isAbsolute hlogical]
  rfl

theorem components_dirOf {container : String} (hc : IsOrdinary container) :
    components (h.dirOf container) =
      components (join h.dataDir "containers") ++ [.name container] :=
  hc.components_join _

theorem components_rootfsOf (container : String) :
    components (h.rootfsOf container) = components (h.dirOf container) ++ [.name "rootfs"] :=
  (by decide : IsOrdinary "rootfs").components_join _

/-- What belongs to a container lies in its directory. -/
theorem exists_components {container path : String} (hc : IsOrdinary container)
    (hpath : path ∈ [h.dirOf container, h.rootfsOf container]) :
    ∃ rest, components path =
      components (join h.dataDir "containers") ++ .name container :: rest := by
  simp only [List.mem_cons, List.not_mem_nil, or_false] at hpath
  rcases hpath with rfl | rfl
  · exact ⟨[], h.components_dirOf hc⟩
  · refine ⟨[.name "rootfs"], ?_⟩
    rw [components_rootfsOf, h.components_dirOf hc, List.append_assoc]
    rfl

/-- Everything lies where it has to.  A logical path is one below the root of the host,
    with the steps that its spelling says, and none replaces the root.  A container has a
    directory among those of the containers and a root file system in it, apart from
    those of every other container. -/
theorem path_layout :
    (h.root ≠ "" → ∀ logical, isAbsolute logical = true →
      components (h.path logical) = components h.root ++ (components logical).tail ∧
      (∀ fields : List String, (∀ field ∈ fields, '/' ∉ field.toList) →
        logical = Path.ofFields fields → components logical =
          .root :: (fields.filter fun field => field ≠ "" ∧ field ≠ ".").map .ofStep) ∧
      (h.root = "/" → components (h.path logical) = components logical) ∧
      (components (h.path logical) = components logical → components h.root = [.root])) ∧
    components (join h.dataDir "containers") = components h.dataDir ++ [.name "containers"] ∧
    ∀ container, IsOrdinary container →
      components (h.dirOf container) =
        components (join h.dataDir "containers") ++ [.name container] ∧
      components (h.rootfsOf container) = components (h.dirOf container) ++ [.name "rootfs"] ∧
      ∀ other, IsOrdinary other → other ≠ container →
        ∀ path ∈ [h.dirOf container, h.rootfsOf container],
        ∀ path' ∈ [h.dirOf other, h.rootfsOf other], Apart path path' := by
  refine ⟨?_, (by decide : IsOrdinary "containers").components_join _, ?_⟩
  · intro hroot logical hlogical
    have hpath := h.components_path hroot hlogical
    have habsolute := components_of_isAbsolute hlogical
    refine ⟨hpath, ?_, ?_, ?_⟩
    · rintro fields hfields rfl
      rw [habsolute, steps_ofFields hfields]
    · intro hslash
      rw [hpath, habsolute, hslash]
      rfl
    · intro heq
      rw [hpath, habsolute, List.tail_cons, ← List.singleton_append] at heq
      exact List.append_cancel_right heq
  · intro container hc
    refine ⟨h.components_dirOf hc, h.components_rootfsOf container, ?_⟩
    intro other hother hne path hpath path' hpath'
    obtain ⟨rest, hrest⟩ := h.exists_components hc hpath
    obtain ⟨rest', hrest'⟩ := h.exists_components hother hpath'
    refine apart_of_ne ?_ hrest hrest'
    intro heq
    cases heq
    exact hne rfl

/-- Spelled oddly, a path is still below a root that is spelled oddly, too. -/
theorem path_layout_oddSpelling :
    let h : HostView := { root := "./tmp//root/.", dataDir := "/srv/./lxd/" }
    let logical := Path.ofFields ["", ".", "dev", "", "..", "dri", ""]
    logical = "//./dev//../dri/" ∧ h.path logical = "./tmp//root/./dev//../dri" ∧
      components (h.path logical) =
        [.here, .name "tmp", .name "root", .name "dev", .up, .name "dri"] ∧
      IsOrdinary "c" ∧ IsOrdinary "rootfs" ∧ Apart (h.rootfsOf "c") (h.dirOf "rootfs") ∧
      components (h.rootfsOf "c") = [.root, .name "srv", .name "lxd", .name "containers",
        .name "c", .name "rootfs"] := by
  intro h logical
  have hc : IsOrdinary "c" := by decide
  have hrootfs : IsOrdinary "rootfs" := by decide
  obtain ⟨hbelow, hcontainers, hcontainer⟩ := path_layout h
  obtain ⟨hpath, hspelled, -, -⟩ := hbelow (by decide) logical (by decide)
  obtain ⟨hdir, hinside, hapart⟩ := hcontainer "c" hc
  refine ⟨by decide, by decide, ?_, hc, hrootfs, ?_, ?_⟩
  · rw [hpath, hspelled _ (by decide) rfl]
    decide
  · exact hapart "rootfs" hrootfs (by decide) _ (by simp) _ (by simp)
  · rw [hinside, hdir, hcontainers]
    decide

end HostView

end BuildTargets
