/-
  BuildTargets/Proofs/Tree/Texts.lean
  ===================================
  **Trees in which every name is a text.**

  Nothing makes the names of a file system UTF-8, but they mostly are, and the targets
  of links with them (`Tree.HasTexts`).  Then what is shown of an entry leads back to
  it, and no two entries of a directory are listed under one text
  (`HasTexts.listsOnce`).  A change of the host at a path that is a text keeps the tree
  so (`HasTexts.apply`).
-/
import BuildTargets.Proofs.Tree.Proper

namespace BuildTargets

/-- What is shown of a name or a path leads back to it. -/
def RawText.IsText (r : RawText) : Prop := RawText.ofText r.shown = r

theorem RawText.isText_ofText (s : String) : IsText s := by
  rw [IsText, shown_ofText]

/-- Nothing is written to a path that is no text. -/
def HostChange.IsTextual : HostChange → Prop
  | .write path _ => path.IsText
  | .chmod _ _ => True

namespace Tree

open RawText (IsText isText_ofText)

/-- Every name is a text, and so is the target of every link. -/
structure HasTexts (t : Tree) : Prop where
  names : ∀ {p n}, t.node? p = some n → ∀ name ∈ p, IsText name
  targets : ∀ {p target}, t.node? p = some (.link target) → IsText target

variable {t t' : Tree} {p q : Place} {names : List RawText}

theorem isText_of_mem_names {path name : RawText} (h : IsText path)
    (hname : name ∈ (Route.ofPath path).names) : IsText name := by
  rw [← h, Route.ofPath, List.mem_filter, RawText.fields_ofText, List.mem_map] at hname
  obtain ⟨⟨field, -, rfl⟩, -⟩ := hname
  exact isText_ofText _

/-- Where something is wanted that is not there, the names on the way are texts. -/
theorem Trail.isText_of_want (h : t.HasTexts) (hp : ∀ name ∈ p, IsText name)
    (hnames : ∀ name ∈ names, IsText name) {keepLast slash : Bool} {links : Nat}
    {last : Option Bool} (htrail : Trail t keepLast links slash p names (.want q last)) :
    ∀ name ∈ q, IsText name := by
  have hconcat {p : Place} {name : RawText} (hp : ∀ name ∈ p, IsText name) (hname : IsText name) :
      ∀ name' ∈ p ++ [name], IsText name' := by
    intro name' hname'
    rcases List.mem_append.mp hname' with hmem | hmem
    · exact hp name' hmem
    · rw [List.mem_singleton.mp hmem]
      exact hname
  generalize hs : Stop.want q last = s at htrail
  induction htrail with
  | lost =>
    cases hs
    exact hp
  | stay _ ih => exact ih hp (List.forall_mem_cons.mp hnames).2 hs
  | up _ ih =>
    exact ih (fun name hname => hp name (List.dropLast_subset _ hname))
      (List.forall_mem_cons.mp hnames).2 hs
  | enter _ _ _ ih =>
    obtain ⟨hname, hrest⟩ := List.forall_mem_cons.mp hnames
    exact ih (hconcat hp hname) hrest hs
  | jump _ hn _ _ ih =>
    refine ih ?_ (fun name hname => ?_) hs
    · split
      · exact fun name hname => absurd hname List.not_mem_nil
      · exact hp
    · rcases List.mem_append.mp hname with hmem | hmem
      · exact isText_of_mem_names (h.targets hn) hmem
      · exact hnames name (List.mem_cons_of_mem _ hmem)
  | gap =>
    cases hs
    exact hconcat hp (List.forall_mem_cons.mp hnames).1
  | missing =>
    cases hs
    exact hconcat hp (List.forall_mem_cons.mp hnames).1
  | _ => cases hs

namespace HasTexts

/-- In such a tree a listing shows nothing twice. -/
theorem listsOnce (h : t.HasTexts) (host : HostView) (dir : String) (isWanted : String → Bool) :
    host.ListsOnce t dir isWanted :=
  listsOnce_of_texts fun _ _ _ _ he _ =>
    h.names (mem_children_iff.mp he) _ (List.mem_append_right _ List.mem_cons_self)

theorem put (h : t.HasTexts) (hp : ∀ name ∈ p, IsText name) {n : Node}
    (hn : ∀ target, n = .link target → IsText target) : (t.put p n).HasTexts := by
  constructor
  · intro q n' hn' name hname
    rw [node?_put] at hn'
    split at hn'
    · next hq => exact hp name (hq ▸ hname)
    · exact h.names hn' name hname
  · intro q target hn'
    rw [node?_put] at hn'
    split at hn'
    · exact hn target (Option.some.inj hn')
    · exact h.targets hn'

theorem setMode (h : t.HasTexts) (p : Place) (m : Nat) : (t.setMode p m).HasTexts := by
  rw [Tree.setMode]
  split
  · next n hn =>
    refine h.put (h.names hn) fun target htarget => ?_
    cases n with
    | link target' =>
      cases htarget
      exact h.targets hn
    | dir m => cases htarget
    | file m content => cases htarget
  · exact h

/-- A file that is created at a path that is a text has a text for its name. -/
theorem put_gap (h : t.HasTexts) {path : RawText} (hpath : IsText path) {keepLast b : Bool}
    (hgap : t.walk keepLast path = .ok (.gap q b)) (m : Nat) (content : List UInt8) :
    (t.put q (.file m content)).HasTexts := by
  have htrail := (walk_eq_gap_iff.mp hgap).2
  have hq := htrail.isText_of_want h (fun name hname => absurd hname List.not_mem_nil)
    fun name hname => isText_of_mem_names hpath hname
  exact h.put hq (by simp)

theorem apply (h : t.HasTexts) {change : HostChange} (htext : change.IsTextual)
    (hrun : change.apply t = .ok t') : t'.HasTexts := by
  cases applied_of_apply hrun with
  | bits q => exact h.setMode q _
  | contents hn => exact h.put (h.names hn) (by simp)
  | created hgap => exact h.put_gap htext hgap _ _

end HasTexts

end Tree

end BuildTargets
