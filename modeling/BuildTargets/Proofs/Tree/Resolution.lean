/-
  BuildTargets/Proofs/Tree/Resolution.lean
  ========================================
  **What is looked at to make a path free of links.**

  A path is made free of links if it leads somewhere and nothing that is looked at on
  the way is too long (`realPath_eq_ok_iff`).  The walk is known by its trail, so what
  is looked at follows by induction on the trail: the place that the path leads to is
  no longer than the longest of it (`Trail.path_fits`), and it stays the same while
  the tree grows (`Grows.lookups`).
-/
import BuildTargets.Proofs.Path
import BuildTargets.Proofs.Tree.Growth

namespace BuildTargets

namespace Place

/-- A place has a longer path than the place above it. -/
theorem byteSize_path_le_concat (p : Place) (name : RawText) :
    p.path.byteSize ≤ (p ++ [name]).path.byteSize := by
  by_cases hp : p = []
  · subst hp
    simp [path, RawText.byteSize, Text.joinWith]
  · have hfields : p.map RawText.bytes ≠ [] := by simpa using hp
    rw [path, path, List.map_append, List.map_singleton, Text.joinWith_concat hfields]
    simp [RawText.byteSize]

theorem byteSize_path_dropLast_le (p : Place) :
    (path p.dropLast).byteSize ≤ p.path.byteSize := by
  rcases List.eq_nil_or_concat p with rfl | ⟨front, name, rfl⟩
  · exact Nat.le_refl _
  · rw [List.concat_eq_append, List.dropLast_concat]
    exact byteSize_path_le_concat front name

end Place

namespace Tree

variable {t t' : Tree} {links m : Nat} {slash : Bool} {p q : Place} {names rest : List RawText}
  {name target path real : RawText} {n : Node}

/-! ### One name at a time -/

/-- What is looked at after a link: nothing if no link may be followed any more. -/
def probesOnLink (t : Tree) (slash : Bool) :
    Nat → Place → RawText → List RawText → List RawText
  | 0 => fun _ _ _ => []
  | links + 1 => fun here target rest =>
      probes t links (slash || (rest.isEmpty && (Route.ofPath target).slash))
        (if (Route.ofPath target).absolute then [] else here) ((Route.ofPath target).names ++ rest)

theorem probes_eq (t : Tree) (links : Nat) (slash : Bool) :
    probes t links slash = probesFrom t slash (probesOnLink t slash links) := by
  cases links with
  | zero => rfl
  | succ links => rfl

theorem probes_nil : t.probes links slash p [] = [] := by
  rw [probes_eq]
  rfl

theorem probes_stay : t.probes links slash p ("." :: rest) = t.probes links slash p rest := by
  rw [probes_eq, probesFrom, if_pos rfl]

theorem probes_up :
    t.probes links slash p (".." :: rest) = t.probes links slash p.dropLast rest := by
  rw [probes_eq, probesFrom, if_neg (by decide +kernel), if_pos rfl]

theorem probes_of_dir (hstep : IsStep name) (hn : t.node? (p ++ [name]) = some (.dir m)) :
    t.probes links slash p (name :: rest) =
      probe (p ++ [name]) (demandsDir slash rest) :: t.probes links slash (p ++ [name]) rest := by
  rw [probes_eq, probesFrom, if_neg hstep.ne_stay, if_neg hstep.ne_up]
  simp only [hn, Node.isDir, Bool.true_or, if_true]

theorem probes_of_file {c : List UInt8} (hstep : IsStep name)
    (hn : t.node? (p ++ [name]) = some (.file m c)) :
    t.probes links false p [name] = [probe (p ++ [name]) false] := by
  rw [probes_eq, probesFrom, if_neg hstep.ne_stay, if_neg hstep.ne_up]
  simp only [hn, demandsDir, Bool.not_false, Bool.or_true, if_true]
  rfl

theorem probes_of_link (hstep : IsStep name) (hn : t.node? (p ++ [name]) = some (.link target)) :
    t.probes (links + 1) slash p (name :: rest) = probe (p ++ [name]) false ::
      t.probes links (slash || (rest.isEmpty && (Route.ofPath target).slash))
        (if (Route.ofPath target).absolute then [] else p)
        ((Route.ofPath target).names ++ rest) := by
  rw [probes_eq, probesFrom, if_neg hstep.ne_stay, if_neg hstep.ne_up]
  simp only [hn]
  rfl

/-! ### Along a trail -/

theorem byteSize_probe_ge (p : Place) (asDir : Bool) :
    p.path.byteSize ≤ (probe p asDir).byteSize := by
  simp [probe, RawText.byteSize]

/-- A trail ends at a place whose path is no longer than what is looked at. -/
theorem Trail.path_fits {limit : Nat} (h : Trail t false links slash p names (.node q n))
    (hp : p.path.byteSize ≤ limit)
    (hprobes : ∀ r ∈ t.probes links slash p names, r.byteSize ≤ limit) :
    q.path.byteSize ≤ limit := by
  generalize hs : Stop.node q n = s at h
  induction h with
  | here =>
    cases hs
    exact hp
  | stay _ ih =>
    rw [probes_stay] at hprobes
    exact ih hp hprobes hs
  | up _ ih =>
    rw [probes_up] at hprobes
    exact ih (Nat.le_trans (Place.byteSize_path_dropLast_le _) hp) hprobes hs
  | enter hstep hn _ ih =>
    rw [probes_of_dir hstep hn, List.forall_mem_cons] at hprobes
    exact ih (Nat.le_trans (byteSize_probe_ge _ _) hprobes.1) hprobes.2 hs
  | file hstep hn =>
    cases hs
    rw [probes_of_file hstep hn, List.forall_mem_singleton] at hprobes
    exact Nat.le_trans (byteSize_probe_ge _ _) hprobes
  | link _ hkeep => cases hkeep
  | jump hstep hn _ _ ih =>
    rw [probes_of_link hstep hn, List.forall_mem_cons] at hprobes
    refine ih ?_ hprobes.2 hs
    split
    · exact Nat.le_trans (Nat.le_add_left ..) (Nat.le_trans (byteSize_probe_ge _ _) hprobes.1)
    · exact hp
  | _ => cases hs

/-- On the way to something that stood before the same is looked at as before. -/
theorem Grows.probes (hg : Grows m t t') (h : Trail t false links slash p names (.node q n)) :
    t'.probes links slash p names = t.probes links slash p names := by
  generalize hs : Stop.node q n = s at h
  induction h with
  | here => rw [probes_nil, probes_nil]
  | stay _ ih => rw [probes_stay, probes_stay, ih hs]
  | up _ ih => rw [probes_up, probes_up, ih hs]
  | enter hstep hn _ ih =>
    obtain ⟨k, hn', -⟩ := hg.dir hn
    rw [probes_of_dir hstep hn, probes_of_dir hstep hn', ih hs]
  | file hstep hn => rw [probes_of_file hstep hn, probes_of_file hstep (hg.not_dir hn rfl)]
  | link _ hkeep => cases hkeep
  | jump hstep hn _ _ ih =>
    rw [probes_of_link hstep hn, probes_of_link hstep (hg.not_dir hn rfl), ih hs]
  | _ => cases hs

/-! ### Paths without links -/

/-- Nothing that is looked at to make a path free of links is too long. -/
def LookupsFit (t : Tree) (path : RawText) : Prop :=
  ∀ looked ∈ t.lookups path, looked.byteSize ≤ pathLimit

instance (t : Tree) (path : RawText) : Decidable (t.LookupsFit path) :=
  inferInstanceAs (Decidable (∀ looked ∈ t.lookups path, looked.byteSize ≤ pathLimit))

theorem realPath_of_lookupsFit (h : t.LookupsFit path) :
    t.realPath path = (t.stat path).map (·.1.path) := by
  have hfits : ((t.lookups path).any fun looked => pathLimit < looked.byteSize) = false := by
    rw [List.any_eq_false]
    intro looked hlooked
    simpa using h looked hlooked
  rw [realPath, hfits]
  cases t.stat path with
  | error e => rfl
  | ok found => rfl

theorem realPath_of_not_lookupsFit (h : ¬t.LookupsFit path) :
    t.realPath path = .error .nameTooLong := by
  have hlong : ((t.lookups path).any fun looked => pathLimit < looked.byteSize) = true := by
    rw [LookupsFit] at h
    push Not at h
    obtain ⟨looked, hlooked, hlong⟩ := h
    exact List.any_eq_true.mpr ⟨looked, hlooked, decide_eq_true hlong⟩
  rw [realPath, hlong]
  rfl

theorem realPath_eq_ok_iff : t.realPath path = .ok real ↔
    t.LookupsFit path ∧ ∃ p n, t.stat path = .ok (p, n) ∧ real = p.path := by
  by_cases hfits : t.LookupsFit path
  · rw [realPath_of_lookupsFit hfits]
    cases t.stat path with
    | error e => simp [Except.map]
    | ok found =>
      obtain ⟨p, n⟩ := found
      simp [Except.map, hfits, eq_comm]
  · rw [realPath_of_not_lookupsFit hfits]
    simp [hfits]

/-- The path of what a path leads to is short enough for a path. -/
theorem byteSize_path_le_of_lookupsFit (h : t.LookupsFit path) (hstat : t.stat path = .ok (p, n)) :
    p.path.byteSize ≤ pathLimit := by
  obtain ⟨hpath, htrail⟩ := walk_eq_node_iff.mp (stat_eq_ok_iff.mp hstat)
  rw [LookupsFit, lookups, if_neg hpath.no_nul] at h
  exact htrail.path_fits (by decide) h

namespace Grows

theorem lookups (hg : Grows m t t') (h : t.stat path = .ok (q, n)) :
    t'.lookups path = t.lookups path := by
  obtain ⟨hpath, htrail⟩ := walk_eq_node_iff.mp (stat_eq_ok_iff.mp h)
  rw [Tree.lookups, Tree.lookups, if_neg hpath.no_nul, if_neg hpath.no_nul]
  exact hg.probes htrail

theorem realPath (hg : Grows m t t') (h : t.realPath path = .ok real) :
    t'.realPath path = .ok real := by
  obtain ⟨hfits, p, n, hstat, hreal⟩ := realPath_eq_ok_iff.mp h
  obtain ⟨n', hstat', -⟩ := hg.stat hstat
  refine realPath_eq_ok_iff.mpr ⟨?_, p, n', hstat', hreal⟩
  rwa [LookupsFit, hg.lookups hstat]

end Grows

end Tree

end BuildTargets
