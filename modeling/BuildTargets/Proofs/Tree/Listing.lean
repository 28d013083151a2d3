/-
  BuildTargets/Proofs/Tree/Listing.lean
  =====================================
  **What a listing of a directory shows, and how it changes as a tree grows.**

  The nodes that are listed are the entries of the directory that the path leads
  to, under the texts of their names (`mem_nodes_iff`), in order (`sorted_nodes`).
  Two names that are not UTF-8 can have one text; a class of names without U+FFFD
  keeps them out, and then each node is listed once (`listsOnce_of_texts`).

  A tree may grow by files of one name only (`AddsOnly`); a listing that such a
  file is not in stays the same (`Grows.mem_nodes_iff`).
-/
import BuildTargets.Proofs.Path
import BuildTargets.Proofs.Tree.Growth
import Mathlib.Data.List.Sort
import Mathlib.Data.String.Basic

namespace BuildTargets

namespace HostView

/-! ### Paths in order -/

theorem sortPaths_eq (paths : List String) : sortPaths paths = paths.insertionSort (· ≤ ·) := by
  have hinsert (path : String) (ps : List String) :
      insertPath path ps = ps.orderedInsert (· ≤ ·) path := by
    induction ps with
    | nil => rfl
    | cons p ps ih => rw [insertPath, List.orderedInsert, ih]
  induction paths with
  | nil => rfl
  | cons path paths ih =>
    rw [List.insertionSort_cons, ← ih, ← hinsert]
    rfl

theorem sortPaths_perm (paths : List String) : (sortPaths paths).Perm paths := by
  rw [sortPaths_eq]
  exact List.perm_insertionSort ..

theorem sortPaths_sorted (paths : List String) : (sortPaths paths).Pairwise (· ≤ ·) := by
  rw [sortPaths_eq]
  exact List.pairwise_insertionSort ..

/-- No two entries of a class are listed under one text. -/
def ListsOnce (h : HostView) (t : Tree) (dir : String) (isWanted : String → Bool) : Prop :=
  ∀ nodes, h.nodes t dir isWanted = .ok nodes → nodes.Nodup

end HostView

namespace Tree

open HostView

/-! ### Entries -/

theorem entryIn_eq_some_iff {p : Place} {e : Place × Node} {child : RawText × Node} :
    entryIn p e = some child ↔ e = (p ++ [child.1], child.2) := by
  obtain ⟨q, n⟩ := e
  obtain ⟨name, n'⟩ := child
  cases hlast : q.getLast? with
  | none =>
    rw [List.getLast?_eq_none_iff] at hlast
    simp [entryIn, hlast]
  | some last =>
    obtain ⟨front, rfl⟩ := List.getLast?_eq_some_iff.mp hlast
    simp [entryIn, and_assoc]

theorem mem_children_iff {t : Tree} {p : Place} {name : RawText} {n : Node} :
    (name, n) ∈ t.children p ↔ t.node? (p ++ [name]) = some n := by
  simp only [children, node?, Dict.get?_eq_some_iff, List.mem_filterMap, entryIn_eq_some_iff,
    exists_eq_right]

theorem listDir_eq_ok_iff {t : Tree} {path : RawText} {entries : List (RawText × Node)} :
    t.listDir path = .ok entries ↔
      ∃ p m, t.stat path = .ok (p, .dir m) ∧ entries = t.children p := by
  rw [listDir]
  cases t.stat path with
  | error e => simp [bind, Except.bind]
  | ok found =>
    obtain ⟨p, n⟩ := found
    cases n with
    | dir m => simp [bind, Except.bind, eq_comm]
    | file m content => simp [bind, Except.bind]
    | link target => simp [bind, Except.bind]

theorem listDir_eq_notFound_iff {t : Tree} {path : RawText} :
    t.listDir path = .error .notFound ↔ t.stat path = .error .notFound := by
  rw [listDir]
  cases t.stat path with
  | error e => simp [bind, Except.bind]
  | ok found =>
    obtain ⟨p, n⟩ := found
    have hne : IoError.notDirectory ≠ IoError.notFound := by decide
    cases n <;> simp [bind, Except.bind, hne]

theorem nodes_of_listDir {h h' : HostView} {t : Tree} {dir : String} {isWanted : String → Bool}
    (hlist : t.listDir (h.path dir) = t.listDir (h'.path dir)) :
    h.nodes t dir isWanted = h'.nodes t dir isWanted := by
  unfold HostView.nodes
  rw [hlist]

/-- Where a listing of nodes comes from: a directory, or none that is there. -/
theorem nodes_eq_ok_iff {h : HostView} {t : Tree} {dir : String} {isWanted : String → Bool}
    {nodes : List String} : h.nodes t dir isWanted = .ok nodes ↔
      (∃ p m, t.stat (h.path dir) = .ok (p, .dir m) ∧
        nodes = sortPaths (((t.children p).filter fun e => isWanted e.1.shown && !e.2.isDir).map
          fun e => withoutTrailingSlashes dir ++ "/" ++ e.1.shown)) ∨
      t.stat (h.path dir) = .error .notFound ∧ nodes = [] := by
  unfold HostView.nodes
  cases hl : t.listDir (h.path dir) with
  | ok entries =>
    obtain ⟨p, m, hstat, rfl⟩ := listDir_eq_ok_iff.mp hl
    simp only [hstat, Except.ok.injEq]
    constructor
    · intro heq
      exact Or.inl ⟨p, m, rfl, heq.symm⟩
    · rintro (⟨p', m', heq, hnodes⟩ | ⟨heq, -⟩)
      · cases heq
        exact hnodes.symm
      · cases heq
  | error e =>
    dsimp only
    have hno (p : Place) (m : Nat) : t.stat (h.path dir) ≠ .ok (p, .dir m) := by
      intro hstat
      rw [listDir_eq_ok_iff.mpr ⟨p, m, hstat, rfl⟩] at hl
      cases hl
    split
    · next he =>
      subst he
      have hstat := listDir_eq_notFound_iff.mp hl
      simp only [hstat, Except.ok.injEq, reduceCtorEq, false_and, exists_false, false_or, true_and]
      exact eq_comm
    · next he =>
      have hstat : t.stat (h.path dir) ≠ .error .notFound := by
        intro hstat
        rw [listDir_eq_notFound_iff.mpr hstat] at hl
        cases hl
        exact he rfl
      constructor
      · intro heq
        cases heq
      · rintro (⟨p, m, heq, -⟩ | ⟨heq, -⟩)
        · exact absurd heq (hno p m)
        · exact absurd heq hstat

theorem nodes_of_dir {h : HostView} {t : Tree} {dir : String} {p : Place} {m : Nat}
    (hstat : t.stat (h.path dir) = .ok (p, .dir m)) (isWanted : String → Bool) :
    ∃ nodes, h.nodes t dir isWanted = .ok nodes :=
  ⟨_, nodes_eq_ok_iff.mpr (Or.inl ⟨p, m, hstat, rfl⟩)⟩

/-- A logical path is listed if it is that of the text of an entry's name. -/
theorem mem_nodes_iff {h : HostView} {t : Tree} {dir : String} {isWanted : String → Bool}
    {nodes : List String} (hnodes : h.nodes t dir isWanted = .ok nodes) {node : String} :
    node ∈ nodes ↔ ∃ p m name n, t.stat (h.path dir) = .ok (p, .dir m) ∧
      t.node? (p ++ [name]) = some n ∧ isWanted name.shown = true ∧ n.isDir = false ∧
      node = withoutTrailingSlashes dir ++ "/" ++ name.shown := by
  rcases nodes_eq_ok_iff.mp hnodes with ⟨p, m, hstat, rfl⟩ | ⟨hstat, rfl⟩
  · simp only [(sortPaths_perm _).mem_iff, List.mem_map, List.mem_filter, Bool.and_eq_true,
      Bool.not_eq_true', Prod.exists, mem_children_iff, hstat, Except.ok.injEq, Prod.mk.injEq]
    constructor
    · rintro ⟨name, n, ⟨hn, hwanted, hdir⟩, rfl⟩
      exact ⟨p, m, name, n, ⟨rfl, rfl⟩, hn, hwanted, hdir, rfl⟩
    · rintro ⟨p', m', name, n, ⟨rfl, -⟩, hn, hwanted, hdir, rfl⟩
      exact ⟨name, n, ⟨hn, hwanted, hdir⟩, rfl⟩
  · simp [hstat]

/-- A directory holds every name once. -/
theorem nodup_children (t : Tree) (p : Place) : ((t.children p).map (·.1)).Nodup := by
  refine List.pairwise_map.mpr (List.pairwise_filterMap.mpr (t.nodes.sorted.imp ?_))
  intro a b hlt child ha child' hb heq
  rw [entryIn_eq_some_iff.mp ha, entryIn_eq_some_iff.mp hb, heq] at hlt
  exact Std.lt_irrefl hlt

/-- Nodes are listed in the order of their paths. -/
theorem sorted_nodes {h : HostView} {t : Tree} {dir : String} {isWanted : String → Bool}
    {nodes : List String} (hnodes : h.nodes t dir isWanted = .ok nodes) :
    nodes.Pairwise (· ≤ ·) := by
  rcases nodes_eq_ok_iff.mp hnodes with ⟨p, m, -, rfl⟩ | ⟨-, rfl⟩
  · exact sortPaths_sorted _
  · exact List.Pairwise.nil

/-- Each node is listed once, if what is listed under it has no other text. -/
theorem listsOnce_of_texts {h : HostView} {t : Tree} {dir : String} {isWanted : String → Bool}
    (htexts : ∀ p m, t.stat (h.path dir) = .ok (p, .dir m) → ∀ e ∈ t.children p,
      isWanted e.1.shown = true → RawText.ofText e.1.shown = e.1) :
    h.ListsOnce t dir isWanted := by
  intro nodes hnodes
  rcases nodes_eq_ok_iff.mp hnodes with ⟨p, m, hstat, rfl⟩ | ⟨-, rfl⟩
  · refine (sortPaths_perm _).nodup_iff.mpr (List.pairwise_map.mpr ?_)
    have hchildren := (List.pairwise_map.mp (nodup_children t p)).filter
      fun e => isWanted e.1.shown && !e.2.isDir
    refine hchildren.imp_of_mem fun {e e'} he he' hne heq => hne ?_
    rw [List.mem_filter, Bool.and_eq_true] at he he'
    rw [String.append_right_inj] at heq
    rw [← htexts p m hstat e he.1 he.2.1, ← htexts p m hstat e' he'.1 he'.2.1, heq]
  · exact List.Pairwise.nil

theorem slash_of_mem_nodes {h : HostView} {t : Tree} {dir : String} {isWanted : String → Bool}
    {nodes : List String} (hnodes : h.nodes t dir isWanted = .ok nodes) {node : String}
    (hnode : node ∈ nodes) : '/' ∈ node.toList := by
  obtain ⟨p, m, name, n, -, -, -, -, rfl⟩ := (mem_nodes_iff hnodes).mp hnode
  simp [Path.toList_slash]

/-! ### Listings of a growing tree -/

/-- Whatever is new from `t` to `t'` has this name. -/
def AddsOnly (name : String) (t t' : Tree) : Prop :=
  ∀ p n, t.node? p = none → t'.node? p = some n → p.getLast? = some (.ofText name)

variable {added : String} {m : Nat} {t t' t'' : Tree}

theorem AddsOnly.refl (added : String) (t : Tree) : AddsOnly added t t := by
  intro p n hnone hn
  rw [hnone] at hn
  cases hn

theorem AddsOnly.trans (h : AddsOnly added t t') (h' : AddsOnly added t' t'') :
    AddsOnly added t t'' := by
  intro p n hnone hn
  cases hmid : t'.node? p with
  | none => exact h' p n hmid hn
  | some n' => exact h p n' hnone hmid

theorem addsOnly_setMode (t : Tree) (p : Place) (k : Nat) : AddsOnly added t (t.setMode p k) := by
  intro q n hnone hn
  rw [node?_setMode, hnone] at hn
  split at hn <;> cases hn

theorem addsOnly_put {p : Place} (hp : p.getLast? = some (.ofText added)) (n : Node) :
    AddsOnly added t (t.put p n) := by
  intro q n' hnone hn
  rw [node?_put] at hn
  split at hn
  · next hq => rw [hq, hp]
  · rw [hnone] at hn
    cases hn

namespace Grows

variable {host : HostView} {dir : String} {isWanted : String → Bool} {nodes nodes' : List String}

/-- An entry that is no directory and has another name than what is new was
    there before, and as it is. -/
theorem entry_iff (hg : Grows m t t') (ha : AddsOnly added t t') {p : Place} {name : RawText}
    (hname : name ≠ .ofText added) {n : Node} (hdir : n.isDir = false) :
    t'.node? (p ++ [name]) = some n ↔ t.node? (p ++ [name]) = some n := by
  constructor
  · intro hn
    cases hp : t.node? (p ++ [name]) with
    | none =>
      have hlast := ha _ _ hp hn
      rw [List.getLast?_concat, Option.some.injEq] at hlast
      exact absurd hlast hname
    | some n' =>
      rcases hg.kept hp with hn' | ⟨-, hn'⟩
      · rw [← hn', hn]
      · rw [hn, Option.some.injEq] at hn'
        rw [hn'] at hdir
        cases hdir
  · exact fun hn => hg.not_dir hn hdir

/-- Two listings of a directory show the same nodes if what is new is none of
    them. -/
theorem mem_nodes_iff (hg : Grows m t t') (ha : AddsOnly added t t')
    (hadded : isWanted added = false) (h : host.nodes t dir isWanted = .ok nodes)
    (h' : host.nodes t' dir isWanted = .ok nodes') {node : String} :
    node ∈ nodes' ↔ node ∈ nodes := by
  have hne {name : RawText} (hwanted : isWanted name.shown = true) : name ≠ .ofText added := by
    rintro rfl
    rw [RawText.shown_ofText, hadded] at hwanted
    cases hwanted
  rw [Tree.mem_nodes_iff h, Tree.mem_nodes_iff h']
  constructor
  · rintro ⟨p, k, name, n, hstat, hn, hwanted, hdir, rfl⟩
    obtain ⟨k', hstat'⟩ := hg.stat_dir_back hstat
    have hn' := (hg.entry_iff ha (hne hwanted) hdir).mp hn
    exact ⟨p, k', name, n, hstat', hn', hwanted, hdir, rfl⟩
  · rintro ⟨p, k, name, n, hstat, hn, hwanted, hdir, rfl⟩
    obtain ⟨n', hstat', hn'⟩ := hg.stat hstat
    have hentry := (hg.entry_iff ha (hne hwanted) hdir).mpr hn
    rcases hn' with rfl | ⟨-, rfl⟩
    · exact ⟨p, k, name, n, hstat', hentry, hwanted, hdir, rfl⟩
    · exact ⟨p, m, name, n, hstat', hentry, hwanted, hdir, rfl⟩

theorem nodes_back (hg : Grows m t t') (ha : AddsOnly added t t')
    (hadded : isWanted added = false) (h' : host.nodes t' dir isWanted = .ok nodes')
    {node : String} (hnode : node ∈ nodes') :
    ∃ nodes, host.nodes t dir isWanted = .ok nodes ∧ node ∈ nodes := by
  obtain ⟨p, k, name, n, hstat, -⟩ := (Tree.mem_nodes_iff h').mp hnode
  obtain ⟨k', hstat'⟩ := hg.stat_dir_back hstat
  obtain ⟨nodes, hnodes⟩ := nodes_of_dir hstat' isWanted
  exact ⟨nodes, hnodes, (hg.mem_nodes_iff ha hadded hnodes h').mp hnode⟩

/-- A directory that could be listed can be listed still, and so can one that is
    absent still. -/
theorem nodes_ok (hg : Grows m t t') (h : host.nodes t dir isWanted = .ok nodes)
    (habsent : t.stat (host.path dir) = .error .notFound →
      t'.stat (host.path dir) = .error .notFound) :
    ∃ nodes', host.nodes t' dir isWanted = .ok nodes' := by
  rcases nodes_eq_ok_iff.mp h with ⟨p, k, hstat, -⟩ | ⟨hstat, -⟩
  · obtain ⟨n', hstat', hn'⟩ := hg.stat hstat
    rcases hn' with rfl | ⟨-, rfl⟩
    · exact nodes_of_dir hstat' isWanted
    · exact nodes_of_dir hstat' isWanted
  · exact ⟨[], nodes_eq_ok_iff.mpr (Or.inr ⟨habsent hstat, rfl⟩)⟩

end Grows

/-! ### Gaps -/

/-- A path that leads to a gap names it last, unless it ends in a link. -/
theorem Trail.last_of_gap {links : Nat} {slash : Bool} {p q : Place} {front : List RawText}
    {name : RawText} {b : Bool} (hslash : slash = false)
    (h : Trail t false links slash p (front ++ [name]) (.want q (some b))) :
    q.getLast? = some name ∨
      ∃ q' target, Trail t true links slash p (front ++ [name]) (.node q' (.link target)) := by
  generalize hs : Stop.want q (some b) = s at h
  generalize hnames : front ++ [name] = names at h
  induction h generalizing front with
  | stay htrail ih =>
    cases front with
    | nil =>
      simp only [List.nil_append, List.cons.injEq] at hnames
      rw [← hnames.2, ← hs] at htrail
      cases htrail
    | cons f front =>
      simp only [List.cons_append, List.cons.injEq] at hnames
      rcases ih hslash hs hnames.2 with hq | ⟨q', target, hlink⟩
      · exact Or.inl hq
      · exact Or.inr ⟨q', target, .stay hlink⟩
  | up htrail ih =>
    cases front with
    | nil =>
      simp only [List.nil_append, List.cons.injEq] at hnames
      rw [← hnames.2, ← hs] at htrail
      cases htrail
    | cons f front =>
      simp only [List.cons_append, List.cons.injEq] at hnames
      rcases ih hslash hs hnames.2 with hq | ⟨q', target, hlink⟩
      · exact Or.inl hq
      · exact Or.inr ⟨q', target, .up hlink⟩
  | enter hstep hn htrail ih =>
    cases front with
    | nil =>
      simp only [List.nil_append, List.cons.injEq] at hnames
      rw [← hnames.2, ← hs] at htrail
      cases htrail
    | cons f front =>
      simp only [List.cons_append, List.cons.injEq] at hnames
      rcases ih hslash hs hnames.2 with hq | ⟨q', target, hlink⟩
      · exact Or.inl hq
      · exact Or.inr ⟨q', target, .enter hstep hn hlink⟩
  | @jump links slash p f rest target s hstep hn hgo htrail ih =>
    cases front with
    | nil =>
      simp only [List.nil_append, List.cons.injEq] at hnames
      obtain ⟨rfl, rfl⟩ := hnames
      subst hslash
      exact Or.inr ⟨_, target, .link hstep rfl hn⟩
    | cons f' front =>
      simp only [List.cons_append, List.cons.injEq] at hnames
      obtain ⟨rfl, hrest⟩ := hnames
      have hmore : rest ≠ [] := by
        rw [← hrest]
        simp
      have hslash' : (slash || (rest.isEmpty && (Route.ofPath target).slash)) = false := by
        simp [hslash, hmore]
      have hnames' : ((Route.ofPath target).names ++ front) ++ [name] =
          (Route.ofPath target).names ++ rest := by
        rw [List.append_assoc, hrest]
      rcases ih hslash' hs hnames' with hq | ⟨q', target', hlink⟩
      · exact Or.inl hq
      · exact Or.inr ⟨q', target', .jump hstep hn (fun _ => Or.inl hmore) hlink⟩
  | gap hstep hn =>
    cases hs
    cases front with
    | nil =>
      simp only [List.nil_append, List.cons.injEq] at hnames
      rw [hnames.1]
      exact Or.inl (List.getLast?_concat ..)
    | cons f front => simp at hnames
  | _ => cases hs

theorem getLast?_of_gap {path : String} {name : List Char} {q : Place}
    (hlast : Path.lastField path = some name) (hne : name ≠ [])
    (hgap : t.walk false path = .ok (.gap q false))
    (hlink : ∀ p target, t.linkStat path ≠ .ok (p, .link target)) :
    q.getLast? = some (RawText.ofText (String.ofList name)) := by
  obtain ⟨hp, htrail⟩ := walk_eq_gap_iff.mp hgap
  obtain ⟨⟨front, hfront⟩, hslash⟩ := Path.names_of_lastField hlast hne
  rw [PathTrail, hfront] at htrail
  rcases Trail.last_of_gap hslash htrail with hq | ⟨q', target, htrail'⟩
  · exact hq
  · refine absurd ?_ (hlink q' target)
    rw [← hfront] at htrail'
    exact linkStat_eq_ok_iff.mpr (walk_eq_node_iff.mpr ⟨hp, htrail'⟩)

theorem Grows.absent_back (hg : Grows m t t') {path : RawText}
    (habsent : t'.stat path = .error .notFound) : t.stat path = .error .notFound := by
  rcases stat_eq_notFound_iff.mp habsent with hempty | ⟨hp, z, last, htrail⟩
  · exact stat_of_bytes_eq_nil hempty
  · exact stat_eq_notFound_iff.mpr (Or.inr ⟨hp, z, last, hg.trail_want_back htrail⟩)

theorem absent_of_no_new (hg : Grows m t t') (hnew : ∀ p, t.node? p = none → t'.node? p = none)
    {path : RawText} (habsent : t.stat path = .error .notFound) :
    t'.stat path = .error .notFound := by
  rcases stat_eq_notFound_iff.mp habsent with hempty | ⟨hp, z, last, htrail⟩
  · exact stat_of_bytes_eq_nil hempty
  · have htrail' := hg.trail_want (hnew z htrail.want_missing) htrail
    exact stat_eq_notFound_iff.mpr (Or.inr ⟨hp, z, last, htrail'⟩)

/-- What is absent stays so when a gap is filled that it does not hinge on. -/
theorem absent_of_put {t₀ : Tree} (hg : Grows m t₀ t) {path other : RawText} {q : Place}
    {k : Nat} {c : List UInt8} (hq : t.walk false other = .ok (.gap q false))
    (habsent : t.stat path = .error .notFound)
    (hapart : (t₀.put q (.file k c)).stat path = .error .notFound) :
    (t.put q (.file k c)).stat path = .error .notFound := by
  rcases stat_eq_notFound_iff.mp habsent with hempty | ⟨hp, z, last, htrail⟩
  · exact stat_of_bytes_eq_nil hempty
  · have hmissing := (walk_eq_gap_iff.mp hq).2.want_missing
    have hput : Grows m t (t.put q (.file k c)) := grows_put_file hmissing
    have hput₀ : Grows m t₀ (t₀.put q (.file k c)) := grows_put_file (hg.none_back hmissing)
    have htrail₀ := hg.trail_want_back htrail
    have hz : z ≠ q := by
      rintro rfl
      have hfilled : (t₀.put z (.file k c)).node? z = some (.file k c) := by
        rw [node?_put, if_pos rfl]
      rw [stat] at hapart
      rcases hput₀.trail_want_filled hfilled htrail₀ with h | ⟨-, h⟩
      · rw [walk_of_trail hp h] at hapart
        cases hapart
      · rw [walk_of_trail hp h] at hapart
        cases hapart
    refine stat_eq_notFound_iff.mpr (Or.inr ⟨hp, z, last, hput.trail_want ?_ htrail⟩)
    rw [node?_put, if_neg hz]
    exact htrail.want_missing

end Tree

end BuildTargets
