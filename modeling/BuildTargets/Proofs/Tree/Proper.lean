/-
  BuildTargets/Proofs/Tree/Proper.lean
  ====================================
  **Trees that a file system can hold.**

  A text describes any dictionary of places as a tree.  A file system holds the
  *proper* ones only: everything stands in a directory, under a name that can be
  one part of a path, and a link leads to a text that can be a path.  The bare
  tree is proper, and a change of the host keeps a tree proper
  (`IsProper.apply`).

  In a proper tree the path of a place leads to the place (`IsProper.stat_path`),
  and the path of an entry of a directory leads to the entry, if it is a file
  (`IsProper.stat_entry`).
-/
import BuildTargets.Proofs.Tree.Listing
import BuildTargets.Proofs.Tree.Resolution
import BuildTargets.Tree.Entry

namespace BuildTargets

/-- Whether a node can stand in a file system: the target of a link has to be
    free of NUL. -/
def Node.isSound : Node → Bool
  | .link target => !target.bytes.contains 0
  | _ => true

theorem Node.isSound_withMode (n : Node) (m : Nat) : (n.withMode m).isSound = n.isSound := by
  cases n <;> rfl

namespace Tree

/-! ### Proper trees -/

/-- What can be written between the slashes of a path. -/
structure IsField (name : RawText) : Prop where
  ne_empty : name.bytes ≠ []
  no_slash : RawText.slash ∉ name.bytes
  no_nul : 0 ∉ name.bytes

instance (name : RawText) : Decidable (IsField name) :=
  decidable_of_iff (name.bytes ≠ [] ∧ RawText.slash ∉ name.bytes ∧ 0 ∉ name.bytes)
    ⟨fun ⟨h₁, h₂, h₃⟩ => ⟨h₁, h₂, h₃⟩, fun ⟨h₁, h₂, h₃⟩ => ⟨h₁, h₂, h₃⟩⟩

/-- A name that a directory can hold. -/
structure IsName (name : RawText) : Prop extends IsStep name, IsField name

instance (name : RawText) : Decidable (IsName name) :=
  decidable_of_iff (IsStep name ∧ IsField name)
    ⟨fun ⟨h₁, h₂⟩ => ⟨h₁, h₂⟩, fun ⟨h₁, h₂⟩ => ⟨h₁, h₂⟩⟩

theorem IsName.not_filler {name : String} (h : IsName name) :
    Path.isFiller name.toList = false := by
  have h₁ : name.toList ≠ [] := by
    rw [Ne, String.toList_eq_nil_iff, ← RawText.bytes_ofText_eq_nil_iff]
    exact h.ne_empty
  have h₂ : name.toList ≠ ['.'] := by
    intro heq
    refine h.ne_stay (RawText.ofText_inj.mpr ?_)
    rw [← String.toList_inj, heq]
    rfl
  simp [Path.isFiller, h₁, h₂]

def isDirAt (t : Tree) (p : Place) : Bool :=
  match t.node? p with
  | some n => n.isDir
  | none => false

/-- A tree that a file system can hold. -/
structure IsProper (t : Tree) : Prop where
  root : t.isDirAt [] = true
  parent : ∀ {p n}, t.node? p = some n → t.isDirAt p.dropLast = true
  names : ∀ {p n}, t.node? p = some n → ∀ name ∈ p, IsName name
  sound : ∀ {p n}, t.node? p = some n → n.isSound = true

instance (t : Tree) : Decidable t.IsProper :=
  decidable_of_iff (t.isDirAt [] = true ∧ ∀ e ∈ t.nodes.toList,
      t.isDirAt e.1.dropLast = true ∧ (∀ name ∈ e.1, IsName name) ∧ e.2.isSound = true) <| by
    have hmem {p : Place} {n : Node} : t.node? p = some n ↔ (p, n) ∈ t.nodes.toList :=
      Dict.get?_eq_some_iff
    constructor
    · rintro ⟨hroot, hall⟩
      exact ⟨hroot, fun hn => (hall _ (hmem.mp hn)).1, fun hn => (hall _ (hmem.mp hn)).2.1,
        fun hn => (hall _ (hmem.mp hn)).2.2⟩
    · rintro ⟨hroot, hparent, hnames, hsound⟩
      exact ⟨hroot, fun e he => ⟨hparent (hmem.mpr he), hnames (hmem.mpr he),
        hsound (hmem.mpr he)⟩⟩

variable {t : Tree}

theorem isDirAt_iff {p : Place} : t.isDirAt p = true ↔ ∃ m, t.node? p = some (.dir m) := by
  rw [isDirAt]
  cases t.node? p with
  | none => simp
  | some n => cases n <;> simp [Node.isDir]

theorem isDirAt_put (p q : Place) (n : Node) :
    (t.put p n).isDirAt q = if q = p then n.isDir else t.isDirAt q := by
  rw [isDirAt, node?_put]
  by_cases hq : q = p
  · rw [if_pos hq, if_pos hq]
  · rw [if_neg hq, if_neg hq, isDirAt]

namespace IsProper

theorem name (h : t.IsProper) {p : Place} {name : RawText} {n : Node}
    (hn : t.node? (p ++ [name]) = some n) : IsName name :=
  h.names hn name (List.mem_append_right _ List.mem_cons_self)

theorem dir_above (h : t.IsProper) {p q : Place} {n : Node} (hn : t.node? (p ++ q) = some n)
    (hq : q ≠ []) : t.isDirAt p = true := by
  induction q generalizing p with
  | nil => exact absurd rfl hq
  | cons name rest ih =>
    have hname : ∃ n, t.node? (p ++ [name]) = some n := by
      by_cases hrest : rest = []
      · subst hrest
        exact ⟨n, hn⟩
      · rw [List.append_cons] at hn
        obtain ⟨m, hm⟩ := isDirAt_iff.mp (ih hn hrest)
        exact ⟨_, hm⟩
    obtain ⟨n', hn'⟩ := hname
    have hparent := h.parent hn'
    rw [List.dropLast_concat] at hparent
    exact hparent

theorem isDirAt_dropLast (h : t.IsProper) {p : Place} (hp : t.isDirAt p = true) :
    t.isDirAt p.dropLast = true := by
  obtain ⟨m, hm⟩ := isDirAt_iff.mp hp
  exact h.parent hm

end IsProper

/-! ### Walks in proper trees -/

theorem isField_of_mem_names {path name : RawText} (hnul : 0 ∉ path.bytes)
    (hname : name ∈ (Route.ofPath path).names) : IsField name := by
  rw [Route.ofPath, List.mem_filter, RawText.fields, List.mem_map] at hname
  obtain ⟨⟨field, hfield, rfl⟩, hne⟩ := hname
  refine ⟨by simpa using hne, Text.sep_not_mem_of_mem_split hfield, fun hb => ?_⟩
  have hmem : 0 ∈ Text.joinWith RawText.slash (Text.split RawText.slash path.bytes) :=
    Text.mem_joinWith hfield hb
  rw [Text.joinWith_split] at hmem
  exact hnul hmem

variable {keepLast : Bool} {links : Nat} {slash : Bool} {p q : Place} {names : List RawText}

/-- A walk in a proper tree never ends at a link that it should have
    followed. -/
theorem Trail.ne_link (h : t.IsProper) (hp : t.isDirAt p = true) {n : Node}
    (htrail : Trail t false links slash p names (.node q n)) (target : RawText) :
    n ≠ .link target := by
  generalize hs : Stop.node q n = s at htrail
  induction htrail with
  | here hn =>
    cases hs
    obtain ⟨m, hm⟩ := isDirAt_iff.mp hp
    rw [hm, Option.some.injEq] at hn
    rw [← hn]
    exact fun heq => nomatch heq
  | stay _ ih => exact ih hp hs
  | up _ ih => exact ih (h.isDirAt_dropLast hp) hs
  | enter _ hn _ ih => exact ih (isDirAt_iff.mpr ⟨_, hn⟩) hs
  | file =>
    cases hs
    exact fun heq => nomatch heq
  | link _ hkeep => cases hkeep
  | @jump _ _ p _ _ target _ _ _ _ _ ih =>
    refine ih ?_ hs
    split
    · exact h.root
    · exact hp
  | _ => cases hs

/-- A gap in a proper tree is in a directory, and has a name that the directory
    can hold. -/
theorem Trail.gap_fits (h : t.IsProper) (hp : t.isDirAt p = true)
    (hnames : ∀ name ∈ names, IsField name) {b : Bool}
    (htrail : Trail t keepLast links slash p names (.want q (some b))) :
    ∃ p' name, q = p' ++ [name] ∧ t.isDirAt p' = true ∧ IsName name ∧ t.node? q = none := by
  generalize hs : Stop.want q (some b) = s at htrail
  induction htrail with
  | stay _ ih => exact ih hp (fun name hname => hnames name (List.mem_cons_of_mem _ hname)) hs
  | up _ ih =>
    exact ih (h.isDirAt_dropLast hp)
      (fun name hname => hnames name (List.mem_cons_of_mem _ hname)) hs
  | enter _ hn _ ih =>
    exact ih (isDirAt_iff.mpr ⟨_, hn⟩)
      (fun name hname => hnames name (List.mem_cons_of_mem _ hname)) hs
  | @jump _ _ p _ rest target _ _ hn _ _ ih =>
    refine ih ?_ (fun name hname => ?_) hs
    · split
      · exact h.root
      · exact hp
    · rcases List.mem_append.mp hname with hname | hname
      · have hsound := h.sound hn
        simp only [Node.isSound, Bool.not_eq_true', List.contains_eq_mem,
          decide_eq_false_iff_not] at hsound
        exact isField_of_mem_names hsound hname
      · exact hnames name (List.mem_cons_of_mem _ hname)
  | @gap _ _ p name hstep hn =>
    cases hs
    exact ⟨p, name, rfl, hp, ⟨hstep, hnames name List.mem_cons_self⟩, hn⟩
  | _ => cases hs

namespace IsProper

theorem stat_ne_link (h : t.IsProper) {path : RawText} {n : Node}
    (hstat : t.stat path = .ok (q, n)) (target : RawText) : n ≠ .link target :=
  (walk_eq_node_iff.mp (stat_eq_ok_iff.mp hstat)).2.ne_link h h.root target

theorem gap_fits (h : t.IsProper) {path : RawText} {b : Bool}
    (hgap : t.walk keepLast path = .ok (.gap q b)) :
    ∃ p' name, q = p' ++ [name] ∧ t.isDirAt p' = true ∧ IsName name ∧ t.node? q = none := by
  obtain ⟨hpath, htrail⟩ := walk_eq_gap_iff.mp hgap
  exact htrail.gap_fits h h.root fun name hname => isField_of_mem_names hpath.no_nul hname

end IsProper

/-! ### Places and their paths -/

theorem isPath_ofText_iff {path : String} :
    IsPath path ↔ '\x00' ∉ path.toList ∧ path ≠ "" ∧ path.utf8ByteSize ≤ pathLimit := by
  rw [← RawText.nul_mem_ofText_iff, Ne, ← RawText.bytes_ofText_eq_nil_iff,
    ← RawText.byteSize_ofText]
  exact ⟨fun ⟨h₁, h₂, h₃⟩ => ⟨h₁, h₂, h₃⟩, fun ⟨h₁, h₂, h₃⟩ => ⟨h₁, h₂, h₃⟩⟩

theorem split_path {p : Place} (hp : p ≠ []) (hnames : ∀ name ∈ p, IsField name) :
    Text.split RawText.slash p.path.bytes = [] :: p.map RawText.bytes := by
  rw [Place.path, Text.split_cons_sep, Text.split_joinWith]
  · simpa using hp
  · intro field hfield
    obtain ⟨name, hname, rfl⟩ := List.mem_map.mp hfield
    exact (hnames name hname).no_slash

theorem names_path {p : Place} (hnames : ∀ name ∈ p, IsField name) :
    (Route.ofPath p.path).names = p := by
  by_cases hp : p = []
  · subst hp
    decide
  · have hne : ∀ name ∈ p, decide (name.bytes ≠ []) = true := by
      intro name hname
      exact decide_eq_true (hnames name hname).ne_empty
    rw [Route.ofPath, RawText.fields, split_path hp hnames, List.map_cons, List.map_map,
      List.filter_cons_of_neg (by decide)]
    simpa [Function.comp_def] using List.filter_eq_self.mpr hne

theorem slash_path {p : Place} (hp : p ≠ []) (hnames : ∀ name ∈ p, IsField name) :
    (Route.ofPath p.path).slash = false := by
  refine decide_eq_false fun hlast => ?_
  -- a slash at the end would have an empty field after it
  obtain ⟨front, hfront⟩ := List.getLast?_eq_some_iff.mp hlast
  have hsplit := split_path hp hnames
  rw [hfront, Text.split_append] at hsplit
  have hempty : (p.map RawText.bytes).getLast? = some [] := by
    rw [← List.getLast?_cons_of_ne_nil (by simpa using hp), ← hsplit]
    exact List.getLast?_concat ..
  obtain ⟨name, hname, heq⟩ := List.mem_map.mp (List.mem_of_getLast? hempty)
  exact (hnames name hname).ne_empty heq

theorem no_nul_path {p : Place} (hnames : ∀ name ∈ p, IsField name) : 0 ∉ p.path.bytes := by
  rw [Place.path, List.mem_cons]
  rintro (h | h)
  · exact absurd h (by decide)
  · rcases Text.mem_of_mem_joinWith h with h | ⟨field, hfield, hc⟩
    · exact absurd h (by decide)
    · obtain ⟨name, hname, rfl⟩ := List.mem_map.mp hfield
      exact (hnames name hname).no_nul hc

theorem isPath_path {p : Place} (hnames : ∀ name ∈ p, IsField name)
    (hfits : p.path.byteSize ≤ pathLimit) : IsPath p.path :=
  ⟨no_nul_path hnames, List.cons_ne_nil _ _, hfits⟩

namespace IsProper

/-- Going down from a directory to a place below it meets directories only. -/
theorem trail_down (h : t.IsProper) {n : Node} (hn : t.node? (p ++ q) = some n)
    (hlink : ∀ target, n ≠ .link target) (hslash : slash = true → n.isDir = true) :
    Trail t keepLast links slash p q (.node (p ++ q) n) := by
  induction q generalizing p with
  | nil =>
    rw [List.append_nil] at hn ⊢
    exact .here hn
  | cons name rest ih =>
    have hstep : IsStep name := (h.names hn name (by simp)).toIsStep
    rw [List.append_cons] at hn ⊢
    by_cases hrest : rest = []
    · subst hrest
      rw [List.append_nil] at hn ⊢
      cases n with
      | dir m => exact .enter hstep hn (.here hn)
      | file m c =>
        cases slash with
        | false => exact .file hstep hn
        | true => cases hslash rfl
      | link target => exact absurd rfl (hlink target)
    · obtain ⟨m, hm⟩ := isDirAt_iff.mp (h.dir_above hn hrest)
      exact .enter hstep hm (ih hn)

theorem stat_path (h : t.IsProper) {n : Node} (hn : t.node? p = some n)
    (hlink : ∀ target, n ≠ .link target) (hfits : p.path.byteSize ≤ pathLimit) :
    t.stat p.path = .ok (p, n) := by
  have hfield (name : RawText) (hname : name ∈ p) : IsField name := (h.names hn name hname).toIsField
  rw [stat_eq_ok_iff, walk_eq_node_iff]
  refine ⟨isPath_path hfield hfits, ?_⟩
  rw [PathTrail, names_path hfield]
  refine h.trail_down hn hlink fun hslash => ?_
  by_cases hp : p = []
  · subst hp
    have hroot := h.root
    rw [isDirAt, hn] at hroot
    exact hroot
  · rw [slash_path hp hfield] at hslash
    cases hslash

/-- The path that a path is made free of links to leads where that path does. -/
theorem stat_realPath (h : t.IsProper) {path real : RawText} (hreal : t.realPath path = .ok real) :
    t.stat real = t.stat path := by
  obtain ⟨hlookups, p, n, hstat, rfl⟩ := realPath_eq_ok_iff.mp hreal
  rw [hstat]
  exact h.stat_path (node?_of_stat hstat) (h.stat_ne_link hstat)
    (byteSize_path_le_of_lookupsFit hlookups hstat)

end IsProper

/-- A walk that ends in a directory goes on to an entry of the directory. -/
theorem Trail.concat {m : Nat} {entry : RawText} {s : Stop}
    (hlast : ∀ links, Trail t keepLast links false q [entry] s)
    (htrail : Trail t false links slash p names (.node q (.dir m))) :
    Trail t keepLast links false p (names ++ [entry]) s := by
  generalize hs : Stop.node q (.dir m) = s' at htrail
  induction htrail with
  | @here links =>
    cases hs
    exact hlast links
  | stay _ ih => exact .stay (ih hs)
  | up _ ih => exact .up (ih hs)
  | enter hstep hn _ ih => exact .enter hstep hn (ih hs)
  | @jump _ _ _ _ rest _ _ hstep hn _ _ ih =>
    have hgo := ih hs
    rw [List.append_assoc] at hgo
    -- the entry comes after the names that the link stands for
    have hmore : (rest ++ [entry]).isEmpty = false := by simp
    rw [List.cons_append]
    refine .jump hstep hn (fun _ => Or.inl (by simp)) ?_
    rw [hmore, Bool.false_and, Bool.or_false]
    exact hgo
  | _ => cases hs

theorem walk_entry {dir entry : RawText} {m : Nat} {n : Node} (hname : IsName entry)
    (hdir : t.stat dir = .ok (p, .dir m))
    (hlast : ∀ links, Trail t keepLast links false p [entry] (.node (p ++ [entry]) n))
    (hfits : (dir.child entry).byteSize ≤ pathLimit) :
    t.walk keepLast (dir.child entry) = .ok (.node (p ++ [entry]) n) := by
  obtain ⟨hpath, htrail⟩ := walk_eq_node_iff.mp (stat_eq_ok_iff.mp hdir)
  refine walk_eq_node_iff.mpr ⟨⟨?_, by simp [RawText.child], hfits⟩, ?_⟩
  · have hslash : (0 : UInt8) ≠ RawText.slash := by decide
    simp [RawText.child, hpath.no_nul, hname.no_nul, hslash]
  · have hend : (Route.ofPath (dir.child entry)).slash = false := by
      refine decide_eq_false fun hlast => ?_
      rw [RawText.child, List.getLast?_append, List.getLast?_cons_of_ne_nil hname.ne_empty,
        List.getLast?_eq_some_getLast hname.ne_empty, Option.some_or, Option.some.injEq] at hlast
      exact hname.no_slash (hlast ▸ List.getLast_mem _)
    rw [PathTrail, Path.names_child dir hname.no_slash hname.ne_empty, hend]
    exact htrail.concat hlast

namespace IsProper

variable {dir entry : RawText} {m : Nat}

theorem stat_entry (h : t.IsProper) (hdir : t.stat dir = .ok (p, .dir m)) {m' : Nat}
    {c : List UInt8} (hn : t.node? (p ++ [entry]) = some (.file m' c))
    (hfits : (dir.child entry).byteSize ≤ pathLimit) :
    t.stat (dir.child entry) = .ok (p ++ [entry], .file m' c) := by
  have hname := h.name hn
  exact stat_eq_ok_iff.mpr (walk_entry hname hdir (fun _ => .file hname.toIsStep hn) hfits)

theorem linkStat_entry (h : t.IsProper) (hdir : t.stat dir = .ok (p, .dir m)) {target : RawText}
    (hn : t.node? (p ++ [entry]) = some (.link target))
    (hfits : (dir.child entry).byteSize ≤ pathLimit) :
    t.linkStat (dir.child entry) = .ok (p ++ [entry], .link target) := by
  have hname := h.name hn
  exact linkStat_eq_ok_iff.mpr
    (walk_entry hname hdir (fun _ => .link hname.toIsStep rfl hn) hfits)

end IsProper

/-! ### What keeps a tree proper -/

theorem isProper_bare : IsProper bare := by decide +kernel

namespace IsProper

theorem put (h : t.IsProper) {n : Node} (hparent : t.isDirAt p.dropLast = true)
    (hnames : ∀ name ∈ p, IsName name) (hsound : n.isSound = true)
    (hdir : t.isDirAt p = true → n.isDir = true) : (t.put p n).IsProper := by
  have hkept {q : Place} (hq : t.isDirAt q = true) : (t.put p n).isDirAt q = true := by
    rw [isDirAt_put]
    split
    · next heq =>
      subst heq
      exact hdir hq
    · exact hq
  refine ⟨hkept h.root, fun {q n'} hn => ?_, fun {q n'} hn => ?_, fun {q n'} hn => ?_⟩
  all_goals rw [node?_put] at hn; split at hn
  · next heq =>
    subst heq
    exact hkept hparent
  · exact hkept (h.parent hn)
  · next heq =>
    subst heq
    exact hnames
  · exact h.names hn
  · cases hn
    exact hsound
  · exact h.sound hn

theorem setMode (h : t.IsProper) (p : Place) (m : Nat) : (t.setMode p m).IsProper := by
  rw [Tree.setMode]
  split
  · next n hn =>
    refine h.put (h.parent hn) (h.names hn) ?_ fun hdir => ?_
    · rw [Node.isSound_withMode]
      exact h.sound hn
    · rw [isDirAt, hn] at hdir
      cases n <;> first | rfl | cases hdir
  · exact h

theorem put_gap (h : t.IsProper) {path : RawText} {b : Bool} {n : Node}
    (hgap : t.walk keepLast path = .ok (.gap q b)) (hsound : n.isSound = true) :
    (t.put q n).IsProper := by
  obtain ⟨p, name, rfl, hdir, hname, hmissing⟩ := h.gap_fits hgap
  refine h.put ?_ (fun name' hname' => ?_) hsound fun hdir' => ?_
  · rw [List.dropLast_concat]
    exact hdir
  · rcases List.mem_append.mp hname' with hmem | hmem
    · obtain ⟨m, hm⟩ := isDirAt_iff.mp hdir
      exact h.names hm name' hmem
    · rw [List.mem_singleton] at hmem
      rw [hmem]
      exact hname
  · rw [isDirAt, hmissing] at hdir'
    cases hdir'

end IsProper

/-- What a change of the host makes of its tree, if it can be carried out. -/
inductive Applied (t : Tree) : HostChange → Tree → Prop where
  | bits {path mode} (q : Place) : Applied t (.chmod path mode) (t.setMode q mode)
  | contents {path content q m old} (hn : t.node? q = some (.file m old)) :
      Applied t (.write path content) (t.put q (.file m content))
  | created {path content q} (hgap : t.walk false path = .ok (.gap q false)) :
      Applied t (.write path content) (t.put q (.file newFileMode content))

theorem applied_of_apply {change : HostChange} {t' : Tree} (hrun : change.apply t = .ok t') :
    Applied t change t' := by
  cases change with
  | chmod path mode =>
    rw [HostChange.apply, chmod] at hrun
    cases hstat : t.stat path with
    | error e =>
      rw [hstat] at hrun
      cases hrun
    | ok found =>
      rw [hstat] at hrun
      cases hrun
      exact .bits found.1
  | write path content =>
    rw [HostChange.apply, writeFile] at hrun
    cases hwalk : t.walk false path with
    | error e =>
      rw [hwalk] at hrun
      cases hrun
    | ok landing =>
      rw [hwalk] at hrun
      cases landing with
      | node q n =>
        cases n with
        | file m old =>
          cases hrun
          exact .contents (walk_eq_node_iff.mp hwalk).2.node_standing
        | dir m => cases hrun
        | link target => cases hrun
      | gap q slash =>
        cases slash with
        | true => cases hrun
        | false =>
          cases hrun
          exact .created hwalk

/-- A change of the host keeps its tree proper. -/
theorem IsProper.apply (h : t.IsProper) {change : HostChange} {t' : Tree}
    (hrun : change.apply t = .ok t') : t'.IsProper := by
  cases applied_of_apply hrun with
  | bits q => exact h.setMode q _
  | contents hn =>
    refine h.put (h.parent hn) (h.names hn) rfl fun hdir => ?_
    rw [isDirAt, hn] at hdir
    cases hdir
  | created hgap => exact h.put_gap hgap rfl

/-! ### Trees from descriptions -/

/-- The tree that a list of entries describes, or a bare one if they describe
    none. -/
def laidOut (entries : List Entry) : Tree := (bare.applyAll entries).toOption.getD bare

end Tree

end BuildTargets
