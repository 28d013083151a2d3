/-
  BuildTargets/Proofs/Tree/Growth.lean
  ====================================
  **Trees that only grow.**

  The library changes a tree in two ways: a directory gets certain permission
  bits, and a file is created where nothing stood.  Under both, `Grows`, a walk
  that found something finds it again (`Grows.trail_node`), and the walk to
  something that stood before is the same walk as before
  (`Grows.trail_node_back`).  A walk that ended for want of something ends for
  want of the same thing, unless exactly that has been created
  (`Grows.trail_want`, `Grows.trail_want_filled`).
-/
import BuildTargets.Proofs.Tree.Trail

namespace BuildTargets.Tree

open BuildTargets

/-- From `t` to `t'` nothing was lost: what stood somewhere stands there still,
    but that directories may have got the bits `m`, and what is new are
    files. -/
structure Grows (m : Nat) (t t' : Tree) : Prop where
  kept : ∀ {p n}, t.node? p = some n →
    t'.node? p = some n ∨ n.isDir = true ∧ t'.node? p = some (.dir m)
  added : ∀ {p n}, t.node? p = none → t'.node? p = some n → ∃ k c, n = .file k c

variable {m : Nat} {t t' t'' : Tree} {keepLast : Bool}

namespace Grows

theorem refl (m : Nat) (t : Tree) : Grows m t t :=
  ⟨fun h => Or.inl h, fun h h' => by rw [h] at h'; cases h'⟩

theorem trans (h : Grows m t t') (h' : Grows m t' t'') : Grows m t t'' where
  kept := by
    intro p n hn
    rcases h.kept hn with hn' | ⟨hdir, hn'⟩
    · exact h'.kept hn'
    · rcases h'.kept hn' with hn'' | ⟨-, hn''⟩
      · exact Or.inr ⟨hdir, hn''⟩
      · exact Or.inr ⟨hdir, hn''⟩
  added := by
    intro p n hnone hn
    cases hmid : t'.node? p with
    | none => exact h'.added hmid hn
    | some n' =>
      obtain ⟨k, c, rfl⟩ := h.added hnone hmid
      rcases h'.kept hmid with hn' | ⟨hdir, -⟩
      · rw [hn, Option.some.injEq] at hn'
        exact ⟨k, c, hn'⟩
      · cases hdir

theorem dir (h : Grows m t t') {p : Place} {k : Nat} (hn : t.node? p = some (.dir k)) :
    ∃ k', t'.node? p = some (.dir k') ∧ (k' = k ∨ k' = m) := by
  rcases h.kept hn with hn' | ⟨-, hn'⟩
  · exact ⟨k, hn', Or.inl rfl⟩
  · exact ⟨m, hn', Or.inr rfl⟩

theorem not_dir (h : Grows m t t') {p : Place} {n : Node} (hn : t.node? p = some n)
    (hdir : n.isDir = false) : t'.node? p = some n := by
  rcases h.kept hn with hn' | ⟨hdir', -⟩
  · exact hn'
  · rw [hdir] at hdir'
    cases hdir'

theorem stands (h : Grows m t t') {p : Place} {n : Node} (hn : t.node? p = some n) :
    ∃ n', t'.node? p = some n' := by
  rcases h.kept hn with hn' | ⟨-, hn'⟩
  · exact ⟨n, hn'⟩
  · exact ⟨_, hn'⟩

theorem none_back (h : Grows m t t') {p : Place} (hn : t'.node? p = none) : t.node? p = none := by
  cases hp : t.node? p with
  | none => rfl
  | some n =>
    obtain ⟨n', hn'⟩ := h.stands hp
    rw [hn] at hn'
    cases hn'

theorem dir_back (h : Grows m t t') {p : Place} {k : Nat} (hn : t'.node? p = some (.dir k)) :
    ∃ k', t.node? p = some (.dir k') ∧ (k = k' ∨ k = m) := by
  cases hp : t.node? p with
  | none =>
    obtain ⟨k', c, hc⟩ := h.added hp hn
    cases hc
  | some n =>
    rcases h.kept hp with hn' | ⟨hdir, hn'⟩
    · rw [hn, Option.some.injEq] at hn'
      exact ⟨k, by rw [hn'], Or.inl rfl⟩
    · rw [hn, Option.some.injEq, Node.dir.injEq] at hn'
      cases n with
      | dir k' => exact ⟨k', rfl, Or.inr hn'⟩
      | file k' c => cases hdir
      | link s => cases hdir

theorem link_back (h : Grows m t t') {p : Place} {s : RawText}
    (hn : t'.node? p = some (.link s)) : t.node? p = some (.link s) := by
  cases hp : t.node? p with
  | none =>
    obtain ⟨k', c, hc⟩ := h.added hp hn
    cases hc
  | some n =>
    rcases h.kept hp with hn' | ⟨-, hn'⟩
    · rw [← hn', hn]
    · rw [hn] at hn'
      cases hn'

/-! ### Walks in a grown tree -/

variable {links : Nat} {slash : Bool} {p q : Place} {names : List RawText} {n : Node}

theorem trail_node (hg : Grows m t t') (h : Trail t keepLast links slash p names (.node q n)) :
    ∃ n', Trail t' keepLast links slash p names (.node q n') := by
  generalize hs : Stop.node q n = s at h
  induction h with
  | here hn =>
    cases hs
    obtain ⟨n', hn'⟩ := hg.stands hn
    exact ⟨n', .here hn'⟩
  | stay _ ih => exact (ih hs).imp fun _ => .stay
  | up _ ih => exact (ih hs).imp fun _ => .up
  | enter hstep hn _ ih =>
    obtain ⟨k', hn', -⟩ := hg.dir hn
    exact (ih hs).imp fun _ => .enter hstep hn'
  | file hstep hn =>
    cases hs
    exact ⟨_, .file hstep (hg.not_dir hn rfl)⟩
  | link hstep hkeep hn =>
    cases hs
    exact ⟨_, .link hstep hkeep (hg.not_dir hn rfl)⟩
  | jump hstep hn hgo _ ih => exact (ih hs).imp fun _ => .jump hstep (hg.not_dir hn rfl) hgo
  | _ => cases hs

/-- A walk to something that stood before is the walk of before: on its way are
    directories and links only, and none of them is new. -/
theorem trail_node_back (hg : Grows m t t') (hq : t.node? q = some n) {n' : Node}
    (h : Trail t' keepLast links slash p names (.node q n')) :
    Trail t keepLast links slash p names (.node q n) := by
  generalize hs : Stop.node q n' = s at h
  induction h with
  | here hn => cases hs; exact .here hq
  | stay _ ih => exact .stay (ih hs)
  | up _ ih => exact .up (ih hs)
  | enter hstep hn _ ih =>
    obtain ⟨k', hn', -⟩ := hg.dir_back hn
    exact .enter hstep hn' (ih hs)
  | file hstep hn =>
    cases hs
    rcases hg.kept hq with hn' | ⟨-, hn'⟩
    · rw [hn, Option.some.injEq] at hn'
      subst hn'
      exact .file hstep hq
    · rw [hn] at hn'
      cases hn'
  | link hstep hkeep hn =>
    cases hs
    have hlink := hg.link_back hn
    rw [hq, Option.some.injEq] at hlink
    subst hlink
    exact .link hstep hkeep hq
  | jump hstep hn hgo _ ih => exact .jump hstep (hg.link_back hn) hgo (ih hs)
  | _ => cases hs

theorem trail_want_back (hg : Grows m t t') {last : Option Bool}
    (h : Trail t' keepLast links slash p names (.want q last)) :
    Trail t keepLast links slash p names (.want q last) := by
  generalize hs : Stop.want q last = s at h
  induction h with
  | lost hn => cases hs; exact .lost (hg.none_back hn)
  | stay _ ih => exact .stay (ih hs)
  | up _ ih => exact .up (ih hs)
  | enter hstep hn _ ih =>
    obtain ⟨k', hn', -⟩ := hg.dir_back hn
    exact .enter hstep hn' (ih hs)
  | jump hstep hn hgo _ ih => exact .jump hstep (hg.link_back hn) hgo (ih hs)
  | gap hstep hn => cases hs; exact .gap hstep (hg.none_back hn)
  | missing hstep hn hmore => cases hs; exact .missing hstep (hg.none_back hn) hmore
  | _ => cases hs

theorem trail_want (hg : Grows m t t') {last : Option Bool} (hq : t'.node? q = none)
    (h : Trail t keepLast links slash p names (.want q last)) :
    Trail t' keepLast links slash p names (.want q last) := by
  generalize hs : Stop.want q last = s at h
  induction h with
  | lost hn => cases hs; exact .lost hq
  | stay _ ih => exact .stay (ih hs)
  | up _ ih => exact .up (ih hs)
  | enter hstep hn _ ih =>
    obtain ⟨k', hn', -⟩ := hg.dir hn
    exact .enter hstep hn' (ih hs)
  | jump hstep hn hgo _ ih => exact .jump hstep (hg.not_dir hn rfl) hgo (ih hs)
  | gap hstep hn => cases hs; exact .gap hstep hq
  | missing hstep hn hmore => cases hs; exact .missing hstep hq hmore
  | _ => cases hs

/-- Where what was wanted has been created, a walk no longer ends for want of
    anything: it finds the new file, or a file where it needs a directory. -/
theorem trail_want_filled (hg : Grows m t t') {last : Option Bool} {k : Nat} {c : List UInt8}
    (hq : t'.node? q = some (.file k c))
    (h : Trail t keepLast links slash p names (.want q last)) :
    Trail t' keepLast links slash p names (.node q (.file k c)) ∨
      last ≠ some false ∧ Trail t' keepLast links slash p names (.refused .notDirectory) := by
  generalize hs : Stop.want q last = s at h
  induction h with
  | lost hn => cases hs; exact Or.inl (.here hq)
  | stay _ ih => exact (ih hs).imp .stay (.imp_right .stay)
  | up _ ih => exact (ih hs).imp .up (.imp_right .up)
  | enter hstep hn _ ih =>
    obtain ⟨k', hn', -⟩ := hg.dir hn
    exact (ih hs).imp (.enter hstep hn') (.imp_right (.enter hstep hn'))
  | jump hstep hn hgo _ ih =>
    have hn' := hg.not_dir hn rfl
    exact (ih hs).imp (.jump hstep hn' hgo) (.imp_right (.jump hstep hn' hgo))
  | @gap _ slash _ _ hstep hn =>
    cases hs
    cases slash with
    | false => exact Or.inl (.file hstep hq)
    | true => exact Or.inr ⟨by decide, .blocked hstep hq (Or.inr rfl)⟩
  | missing hstep hn hmore => cases hs; exact Or.inr ⟨by simp, .blocked hstep hq (Or.inl hmore)⟩
  | _ => cases hs

/-! ### Looking in a grown tree -/

variable {path : RawText}

theorem walk_node (hg : Grows m t t') (h : t.walk keepLast path = .ok (.node q n)) :
    ∃ n', t'.walk keepLast path = .ok (.node q n') ∧ (n' = n ∨ n.isDir = true ∧ n' = .dir m) := by
  obtain ⟨hp, htrail⟩ := walk_eq_node_iff.mp h
  obtain ⟨n', htrail'⟩ := hg.trail_node htrail
  refine ⟨n', walk_eq_node_iff.mpr ⟨hp, htrail'⟩, ?_⟩
  rcases hg.kept htrail.node_standing with hn | ⟨hdir, hn⟩
  · rw [htrail'.node_standing, Option.some.injEq] at hn
    exact Or.inl hn
  · rw [htrail'.node_standing, Option.some.injEq] at hn
    exact Or.inr ⟨hdir, hn⟩

theorem stat (hg : Grows m t t') (h : t.stat path = .ok (q, n)) :
    ∃ n', t'.stat path = .ok (q, n') ∧ (n' = n ∨ n.isDir = true ∧ n' = .dir m) := by
  obtain ⟨n', hw, hn'⟩ := hg.walk_node (stat_eq_ok_iff.mp h)
  exact ⟨n', stat_eq_ok_iff.mpr hw, hn'⟩

theorem linkStat (hg : Grows m t t') (h : t.linkStat path = .ok (q, n)) :
    ∃ n', t'.linkStat path = .ok (q, n') ∧ (n' = n ∨ n.isDir = true ∧ n' = .dir m) := by
  obtain ⟨n', hw, hn'⟩ := hg.walk_node (linkStat_eq_ok_iff.mp h)
  exact ⟨n', linkStat_eq_ok_iff.mpr hw, hn'⟩

theorem isPresent (hg : Grows m t t') (h : t.isPresent path = .ok true) :
    t'.isPresent path = .ok true := by
  obtain ⟨q, n, hs⟩ := isPresent_eq_true_iff.mp h
  obtain ⟨n', hs', -⟩ := hg.stat hs
  exact isPresent_eq_true_iff.mpr ⟨q, n', hs'⟩

/-- A directory that a path leads to after growth is none that is new. -/
theorem stat_dir_back (hg : Grows m t t') {k : Nat} (h : t'.stat path = .ok (q, .dir k)) :
    ∃ k', t.stat path = .ok (q, .dir k') := by
  obtain ⟨hp, htrail⟩ := walk_eq_node_iff.mp (stat_eq_ok_iff.mp h)
  obtain ⟨k', hn, -⟩ := hg.dir_back htrail.node_standing
  have hback := hg.trail_node_back hn htrail
  exact ⟨k', stat_eq_ok_iff.mpr (walk_eq_node_iff.mpr ⟨hp, hback⟩)⟩

theorem linkStat_link_back (hg : Grows m t t') {s : RawText}
    (h : t'.linkStat path = .ok (q, .link s)) : t.linkStat path = .ok (q, .link s) := by
  obtain ⟨hp, htrail⟩ := walk_eq_node_iff.mp (linkStat_eq_ok_iff.mp h)
  have hback := hg.trail_node_back (hg.link_back htrail.node_standing) htrail
  exact linkStat_eq_ok_iff.mpr (walk_eq_node_iff.mpr ⟨hp, hback⟩)

theorem gap_back (hg : Grows m t t') (h : t'.walk keepLast path = .ok (.gap q slash)) :
    t.walk keepLast path = .ok (.gap q slash) := by
  obtain ⟨hp, htrail⟩ := walk_eq_gap_iff.mp h
  exact walk_eq_gap_iff.mpr ⟨hp, hg.trail_want_back htrail⟩

end Grows

/-! ### The two changes -/

variable {p q : Place} {path : RawText} {k : Nat} {c : List UInt8} {n : Node}

theorem grows_setMode (h : t.node? p = some (.dir k)) : Grows m t (t.setMode p m) where
  kept := by
    intro q n hn
    rw [node?_setMode]
    split
    · next hq =>
      subst hq
      rw [h, Option.some.injEq] at hn
      subst hn
      exact Or.inr ⟨rfl, by rw [h]; rfl⟩
    · exact Or.inl hn
  added := by
    intro q n hnone hn
    rw [node?_setMode, hnone] at hn
    split at hn <;> cases hn

theorem grows_put_file (h : t.node? p = none) : Grows m t (t.put p (.file k c)) where
  kept := by
    intro q n hn
    rw [node?_put]
    split
    · next hq => rw [hq, h] at hn; cases hn
    · exact Or.inl hn
  added := by
    intro q n hnone hn
    rw [node?_put] at hn
    split at hn
    · exact ⟨k, c, (Option.some.inj hn).symm⟩
    · rw [hnone] at hn
      cases hn

theorem chmod_of_stat (h : t.stat path = .ok (q, n)) (mode : Nat) :
    t.chmod path mode = .ok (t.setMode q mode) := by
  rw [chmod, h]
  rfl

theorem setMode_put_file (t : Tree) (q : Place) (k k' : Nat) (c : List UInt8) :
    (t.put q (.file k c)).setMode q k' = t.put q (.file k' c) := by
  refine ext_node? fun p => ?_
  rw [node?_setMode, node?_put, node?_put]
  split <;> rfl

/-- Writing a file that is absent creates it at the gap that its path leads
    to. -/
theorem gap_of_writeFile (habsent : t.stat path = .error .notFound)
    (h : t.writeFile path c = .ok t') :
    ∃ q, t.walk false path = .ok (.gap q false) ∧ t.node? q = none ∧
      t' = t.put q (.file newFileMode c) := by
  rw [writeFile] at h
  rw [Tree.stat] at habsent
  cases hw : t.walk false path with
  | error e => rw [hw] at h; cases h
  | ok l =>
    cases l with
    | node q n => rw [hw] at habsent; cases habsent
    | gap q slash =>
      rw [hw] at h
      cases slash with
      | true => cases h
      | false =>
        cases h
        exact ⟨q, rfl, (walk_eq_gap_iff.mp hw).2.want_missing, rfl⟩

/-- A path that led to a gap leads to the file that fills it. -/
theorem stat_put_of_gap (h : t.walk false path = .ok (.gap q false)) :
    (t.put q (.file k c)).stat path = .ok (q, .file k c) := by
  obtain ⟨hp, htrail⟩ := walk_eq_gap_iff.mp h
  have hg : Grows 0 t (t.put q (.file k c)) := grows_put_file htrail.want_missing
  have hq : (t.put q (.file k c)).node? q = some (.file k c) := by rw [node?_put, if_pos rfl]
  rcases hg.trail_want_filled hq htrail with hfound | ⟨hne, -⟩
  · exact stat_eq_ok_iff.mpr (walk_eq_node_iff.mpr ⟨hp, hfound⟩)
  · exact absurd rfl hne

end BuildTargets.Tree
