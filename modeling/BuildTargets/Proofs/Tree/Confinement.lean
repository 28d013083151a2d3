/-
  BuildTargets/Proofs/Tree/Confinement.lean
  =========================================
  **Walks that stay below a directory.**

  A walk that has come to a directory goes on from there with the names that are
  left (`Trail.split`).  It stays below that directory unless it *strays*: it meets
  `..` at the directory itself, or a link with an absolute target (`Strays`).  So if
  it does not stray and ends at a gap, the gap is below the directory
  (`Trail.gap_below`), whichever links it has followed.
-/
import BuildTargets.Proofs.Tree.Proper

namespace BuildTargets

theorem Place.prefix_dropLast {top p : Place} (h : top <+: p) (hne : p ≠ top) :
    top <+: p.dropLast := by
  obtain ⟨mid, rfl⟩ := h
  have hmid : mid ≠ [] := by
    rintro rfl
    exact hne (List.append_nil top)
  rw [List.dropLast_append_of_ne_nil hmid]
  exact List.prefix_append ..

namespace Tree

/-- A walk from a place at or below `top` meets something that leads it out. -/
inductive Strays (t : Tree) (top : Place) : Place → List RawText → Prop where
  /-- From the top itself it goes up. -/
  | climb {rest} : Strays t top top (".." :: rest)
  /-- A link with an absolute target takes it to the root. -/
  | absolute {p name rest target} (hstep : IsStep name)
      (hn : t.node? (p ++ [name]) = some (.link target))
      (habsolute : (Route.ofPath target).absolute = true) : Strays t top p (name :: rest)
  | stay {p rest} (h : Strays t top p rest) : Strays t top p ("." :: rest)
  | up {p rest} (hp : p ≠ top) (h : Strays t top p.dropLast rest) : Strays t top p (".." :: rest)
  | enter {p name rest m} (hstep : IsStep name) (hn : t.node? (p ++ [name]) = some (.dir m))
      (h : Strays t top (p ++ [name]) rest) : Strays t top p (name :: rest)
  | jump {p name rest target} (hstep : IsStep name)
      (hn : t.node? (p ++ [name]) = some (.link target))
      (hrelative : (Route.ofPath target).absolute = false)
      (h : Strays t top p ((Route.ofPath target).names ++ rest)) : Strays t top p (name :: rest)

variable {t : Tree} {keepLast : Bool} {links : Nat} {slash : Bool} {top p q : Place}
  {names front more : List RawText}

/-- A walk from at or below a directory to a gap strays, or the gap is below the
    directory. -/
theorem Trail.gap_below {b : Bool} (hp : top <+: p)
    (h : Trail t keepLast links slash p names (.want q (some b))) :
    (∃ below, below ≠ [] ∧ q = top ++ below) ∨ Strays t top p names := by
  generalize hs : Stop.want q (some b) = s at h
  induction h with
  | stay _ ih => exact (ih hp hs).imp_right .stay
  | @up _ _ p rest _ _ ih =>
    by_cases htop : p = top
    · subst htop
      exact Or.inr .climb
    · exact (ih (Place.prefix_dropLast hp htop) hs).imp_right (.up htop)
  | enter hstep hn _ ih =>
    exact (ih (hp.trans (List.prefix_append ..)) hs).imp_right (.enter hstep hn)
  | @jump _ _ p _ _ target _ hstep hn _ _ ih =>
    cases habsolute : (Route.ofPath target).absolute with
    | true => exact Or.inr (.absolute hstep hn habsolute)
    | false =>
      rw [habsolute, if_neg Bool.false_ne_true] at ih
      exact (ih hp hs).imp_right (.jump hstep hn habsolute)
  | @gap _ _ p name hstep hn =>
    cases hs
    obtain ⟨mid, rfl⟩ := hp
    exact Or.inl ⟨mid ++ [name], by simp, List.append_assoc ..⟩
  | _ => cases hs

/-- A walk along `front` comes to a directory, and from there a walk along `more` goes
    on to a stop. -/
def Continues (t : Tree) (links : Nat) (slash : Bool) (p : Place) (front more : List RawText)
    (s : Stop) : Prop :=
  ∃ r m links', (∀ slash', Trail t false links slash' p front (.node r (.dir m))) ∧
    Trail t false links' slash r more s

theorem Continues.nil {s : Stop} (hp : t.isDirAt p = true)
    (h : Trail t false links slash p more s) : Continues t links slash p [] more s := by
  obtain ⟨m, hm⟩ := isDirAt_iff.mp hp
  exact ⟨p, m, links, fun _ => .here hm, h⟩

/-- A step before the names in front. -/
theorem Continues.cons {links' : Nat} {slash : Bool} {p' : Place} {name : RawText}
    {rest : List RawText} {s : Stop} (h : Continues t links slash p front more s)
    (hstep : ∀ slash', ∃ slash'', ∀ s, Trail t false links slash'' p front s →
      Trail t false links' slash' p' (name :: rest) s) :
    Continues t links' slash p' (name :: rest) more s := by
  obtain ⟨r, m, links'', hfront, hback⟩ := h
  refine ⟨r, m, links'', fun slash' => ?_, hback⟩
  obtain ⟨slash'', hstep⟩ := hstep slash'
  exact hstep _ (hfront slash'')

/-- A walk to a gap comes to a directory first, and goes on from there with the names
    that are left. -/
theorem Trail.split (hproper : t.IsProper) {b : Bool} (hp : t.isDirAt p = true)
    (hmore : more ≠ []) (h : Trail t false links slash p (front ++ more) (.want q (some b))) :
    Continues t links slash p front more (.want q (some b)) := by
  generalize hs : Stop.want q (some b) = s at h ⊢
  generalize hnames : front ++ more = names at h
  induction h generalizing front with
  | stay h ih =>
    rcases List.append_eq_cons_iff.mp hnames with ⟨rfl, rfl⟩ | ⟨front, rfl, rfl⟩
    · exact .nil hp (.stay h)
    · exact (ih hp hs rfl).cons fun slash' => ⟨slash', fun _ => .stay⟩
  | up h ih =>
    rcases List.append_eq_cons_iff.mp hnames with ⟨rfl, rfl⟩ | ⟨front, rfl, rfl⟩
    · exact .nil hp (.up h)
    · have hdir := hproper.isDirAt_dropLast hp
      exact (ih hdir hs rfl).cons fun slash' => ⟨slash', fun _ => .up⟩
  | enter hstep hn h ih =>
    rcases List.append_eq_cons_iff.mp hnames with ⟨rfl, rfl⟩ | ⟨front, rfl, rfl⟩
    · exact .nil hp (.enter hstep hn h)
    · have hdir := isDirAt_iff.mpr ⟨_, hn⟩
      exact (ih hdir hs rfl).cons fun slash' => ⟨slash', fun _ => .enter hstep hn⟩
  | @jump links slash p name rest target s hstep hn hgo h ih =>
    rcases List.append_eq_cons_iff.mp hnames with ⟨rfl, rfl⟩ | ⟨front, rfl, rfl⟩
    · exact .nil hp (.jump hstep hn hgo h)
    · have hdir : t.isDirAt (if (Route.ofPath target).absolute = true then [] else p) = true := by
        split
        · exact hproper.root
        · exact hp
      have hgoes := ih hdir hs (List.append_assoc ..)
      -- there are names left, so the link does not ask for a directory
      have hleft : (front ++ more).isEmpty = false := by simp [hmore]
      rw [hleft, Bool.false_and, Bool.or_false] at hgoes
      exact hgoes.cons fun slash' => ⟨_, fun _ => .jump hstep hn nofun⟩
  | gap hstep hn =>
    rcases List.append_eq_cons_iff.mp hnames with ⟨rfl, rfl⟩ | ⟨front, rfl, hrest⟩
    · exact .nil hp (.gap hstep hn)
    · exact absurd (List.append_eq_nil_iff.mp hrest.symm).2 hmore
  | _ => cases hs

/-- A path that leads through a directory to a gap, below the directory or astray. -/
theorem IsProper.gap_below (hproper : t.IsProper) {dir path : RawText} {b : Bool}
    (hdir : IsPath dir) (hnames : (Route.ofPath path).names = (Route.ofPath dir).names ++ more)
    (hmore : more ≠ []) (hgap : t.walk false path = .ok (.gap q b)) :
    ∃ top m, t.stat dir = .ok (top, .dir m) ∧
      ((∃ below, below ≠ [] ∧ q = top ++ below) ∨ t.Strays top top more) := by
  obtain ⟨-, htrail⟩ := walk_eq_gap_iff.mp hgap
  rw [PathTrail, hnames] at htrail
  obtain ⟨top, m, links', hfront, hback⟩ := htrail.split hproper hproper.root hmore
  have hwalk := walk_eq_node_iff.mpr ⟨hdir, hfront _⟩
  exact ⟨top, m, stat_eq_ok_iff.mpr hwalk, hback.gap_below List.prefix_rfl⟩

end Tree

end BuildTargets
