/-
  BuildTargets/Proofs/Tree/Trail.lean
  ===================================
  **The trail of a path: following it, as a derivation.**

  `Tree.follow` goes down name by name and starts again at every link.  A
  `Trail` is the same walk written down as a derivation, one constructor for
  each thing that can be met; it ends in a `Stop`, which tells more than the
  answer of `follow` does: where something was wanted that is not there, the
  stop names the place.

  Every walk has a trail (`exists_trail`), and a trail ends as the walk does
  (`Trail.follow_eq`), so a statement about walks is an induction on trails.
-/
import BuildTargets.Tree.Access

namespace BuildTargets

/-- Where a trail ends. -/
inductive Stop where
  /-- Something stands there. -/
  | node (place : Place) (n : Node)
  /-- Nothing stands at the place.  If the name was the last one, `last` tells
      whether the path insists on a directory. -/
  | want (place : Place) (last : Option Bool)
  | refused (e : IoError)
deriving DecidableEq, Repr

def Stop.answer : Stop → Except IoError Landing
  | node p n => .ok (.node p n)
  | want p (some slash) => .ok (.gap p slash)
  | want _ none => .error .notFound
  | refused e => .error e

namespace Tree

/-- A name that leads down. -/
structure IsStep (name : RawText) : Prop where
  ne_stay : name ≠ "."
  ne_up : name ≠ ".."
  fits : name.byteSize ≤ nameLimit

instance (name : RawText) : Decidable (IsStep name) :=
  decidable_of_iff (name ≠ "." ∧ name ≠ ".." ∧ name.byteSize ≤ nameLimit)
    ⟨fun ⟨h₁, h₂, h₃⟩ => ⟨h₁, h₂, h₃⟩, fun ⟨h₁, h₂, h₃⟩ => ⟨h₁, h₂, h₃⟩⟩

/-- The walk from a place along some names, with what it meets. -/
inductive Trail (t : Tree) (keepLast : Bool) :
    (links : Nat) → (slash : Bool) → Place → List RawText → Stop → Prop where
  | here {links slash p n} (hn : t.node? p = some n) : Trail t keepLast links slash p [] (.node p n)
  | lost {links slash p} (hn : t.node? p = none) :
      Trail t keepLast links slash p [] (.want p none)
  | stay {links slash p rest s} (h : Trail t keepLast links slash p rest s) :
      Trail t keepLast links slash p ("." :: rest) s
  | up {links slash p rest s} (h : Trail t keepLast links slash p.dropLast rest s) :
      Trail t keepLast links slash p (".." :: rest) s
  | long {links slash p rest} {name : RawText} (h₁ : name ≠ ".") (h₂ : name ≠ "..")
      (hlong : nameLimit < name.byteSize) :
      Trail t keepLast links slash p (name :: rest) (.refused .nameTooLong)
  | enter {links slash p name rest m s} (hstep : IsStep name)
      (hn : t.node? (p ++ [name]) = some (.dir m))
      (h : Trail t keepLast links slash (p ++ [name]) rest s) :
      Trail t keepLast links slash p (name :: rest) s
  | file {links p name m c} (hstep : IsStep name)
      (hn : t.node? (p ++ [name]) = some (.file m c)) :
      Trail t keepLast links false p [name] (.node (p ++ [name]) (.file m c))
  | blocked {links slash p name rest m c} (hstep : IsStep name)
      (hn : t.node? (p ++ [name]) = some (.file m c)) (hmore : rest ≠ [] ∨ slash = true) :
      Trail t keepLast links slash p (name :: rest) (.refused .notDirectory)
  | link {links p name target} (hstep : IsStep name) (hkeep : keepLast = true)
      (hn : t.node? (p ++ [name]) = some (.link target)) :
      Trail t keepLast links false p [name] (.node (p ++ [name]) (.link target))
  | jump {links slash p name rest target s} (hstep : IsStep name)
      (hn : t.node? (p ++ [name]) = some (.link target))
      (hgo : keepLast = true → rest ≠ [] ∨ slash = true)
      (h : Trail t keepLast links (slash || (rest.isEmpty && (Route.ofPath target).slash))
        (if (Route.ofPath target).absolute then [] else p)
        ((Route.ofPath target).names ++ rest) s) :
      Trail t keepLast (links + 1) slash p (name :: rest) s
  | loop {slash p name rest target} (hstep : IsStep name)
      (hn : t.node? (p ++ [name]) = some (.link target))
      (hgo : keepLast = true → rest ≠ [] ∨ slash = true) :
      Trail t keepLast 0 slash p (name :: rest) (.refused .tooManyLinks)
  | gap {links slash p name} (hstep : IsStep name) (hn : t.node? (p ++ [name]) = none) :
      Trail t keepLast links slash p [name] (.want (p ++ [name]) (some slash))
  | missing {links slash p name rest} (hstep : IsStep name)
      (hn : t.node? (p ++ [name]) = none) (hmore : rest ≠ []) :
      Trail t keepLast links slash p (name :: rest) (.want (p ++ [name]) none)

variable {t : Tree} {keepLast : Bool}

/-! ### Following, one name at a time -/

/-- What `follow` does with a link: nothing if no link may be followed any
    more. -/
def onLink (t : Tree) (keepLast : Bool) (slash : Bool) :
    Nat → Place → RawText → List RawText → Except IoError Landing
  | 0 => fun _ _ _ => .error .tooManyLinks
  | links + 1 => fun here target rest =>
      follow t keepLast links (slash || (rest.isEmpty && (Route.ofPath target).slash))
        (if (Route.ofPath target).absolute then [] else here) ((Route.ofPath target).names ++ rest)

theorem follow_eq_descend (links : Nat) (slash : Bool) :
    follow t keepLast links slash = descend t keepLast slash (onLink t keepLast slash links) := by
  cases links with
  | zero => rfl
  | succ links => rfl

theorem descend_step {slash : Bool} {f : Place → RawText → List RawText → Except IoError Landing}
    {p : Place} {name : RawText} {rest : List RawText} (h : IsStep name) :
    descend t keepLast slash f p (name :: rest) = match t.node? (p ++ [name]) with
      | some (.dir _) => descend t keepLast slash f (p ++ [name]) rest
      | some (.file mode content) =>
        if rest.isEmpty && !slash then .ok (.node (p ++ [name]) (.file mode content))
        else .error .notDirectory
      | some (.link target) =>
        if rest.isEmpty && !slash && keepLast then .ok (.node (p ++ [name]) (.link target))
        else f p target rest
      | none => if rest.isEmpty then .ok (.gap (p ++ [name]) slash) else .error .notFound := by
  exact (if_neg h.ne_stay).trans ((if_neg h.ne_up).trans (if_neg (Nat.not_lt.mpr h.fits)))

/-- A trail ends as the walk does. -/
theorem Trail.follow_eq {links : Nat} {slash : Bool} {p : Place} {names : List RawText} {s : Stop}
    (h : Trail t keepLast links slash p names s) :
    t.follow keepLast links slash p names = s.answer := by
  induction h with
  | here hn => rw [follow_eq_descend, descend, hn]; rfl
  | lost hn => rw [follow_eq_descend, descend, hn]; rfl
  | stay _ ih => rw [← ih, follow_eq_descend, descend, if_pos rfl]
  | up _ ih => rw [← ih, follow_eq_descend, descend, if_neg (by decide +kernel), if_pos rfl]
  | long h₁ h₂ hlong => rw [follow_eq_descend, descend, if_neg h₁, if_neg h₂, if_pos hlong]; rfl
  | enter hstep hn _ ih => rw [← ih, follow_eq_descend, descend_step hstep, hn]
  | file hstep hn => rw [follow_eq_descend, descend_step hstep, hn]; rfl
  | blocked hstep hn hmore =>
    rw [follow_eq_descend, descend_step hstep, hn]
    refine if_neg ?_
    rcases hmore with h | h <;> simp [h]
  | link hstep hkeep hn => rw [follow_eq_descend, descend_step hstep, hn, hkeep]; rfl
  | jump hstep hn hgo _ ih =>
    rw [← ih, follow_eq_descend, descend_step hstep, hn]
    refine (if_neg ?_).trans rfl
    simpa [and_assoc] using fun h₁ h₂ hk => (hgo hk).elim (fun h => h h₁) (by simp [h₂])
  | loop hstep hn hgo =>
    rw [follow_eq_descend, descend_step hstep, hn]
    refine (if_neg ?_).trans rfl
    simpa [and_assoc] using fun h₁ h₂ hk => (hgo hk).elim (fun h => h h₁) (by simp [h₂])
  | gap hstep hn => rw [follow_eq_descend, descend_step hstep, hn]; rfl
  | missing hstep hn hmore =>
    rw [follow_eq_descend, descend_step hstep, hn]
    exact if_neg (by simpa using hmore)

theorem isStep_or (name : RawText) :
    name = "." ∨ name = ".." ∨ (name ≠ "." ∧ name ≠ ".." ∧ nameLimit < name.byteSize) ∨
      IsStep name := by
  by_cases h₁ : name = "."
  · exact Or.inl h₁
  · by_cases h₂ : name = ".."
    · exact Or.inr (Or.inl h₂)
    · rcases Nat.lt_or_ge nameLimit name.byteSize with h | h
      · exact Or.inr (Or.inr (Or.inl ⟨h₁, h₂, h⟩))
      · exact Or.inr (Or.inr (Or.inr ⟨h₁, h₂, h⟩))

/-- A walk has a trail if it has one from every link on. -/
theorem exists_trail_of_links {links : Nat}
    (hlink : ∀ {slash p name rest target}, IsStep name →
      t.node? (p ++ [name]) = some (.link target) → (keepLast = true → rest ≠ [] ∨ slash = true) →
      ∃ s, Trail t keepLast links slash p (name :: rest) s)
    (slash : Bool) (p : Place) (names : List RawText) :
    ∃ s, Trail t keepLast links slash p names s := by
  induction names generalizing p with
  | nil =>
    cases hn : t.node? p with
    | none => exact ⟨_, .lost hn⟩
    | some n => exact ⟨_, .here hn⟩
  | cons name rest ih =>
    rcases isStep_or name with rfl | rfl | ⟨h₁, h₂, hlong⟩ | hstep
    · exact (ih p).imp fun _ => .stay
    · exact (ih p.dropLast).imp fun _ => .up
    · exact ⟨_, .long h₁ h₂ hlong⟩
    · by_cases hmore : rest ≠ [] ∨ slash = true
      · cases hn : t.node? (p ++ [name]) with
        | none =>
          by_cases hrest : rest = []
          · subst hrest
            exact ⟨_, .gap hstep hn⟩
          · exact ⟨_, .missing hstep hn hrest⟩
        | some n =>
          cases n with
          | dir m => exact (ih (p ++ [name])).imp fun _ => .enter hstep hn
          | file m c => exact ⟨_, .blocked hstep hn hmore⟩
          | link target => exact hlink hstep hn fun _ => hmore
      · obtain ⟨rfl, rfl⟩ : rest = [] ∧ slash = false := by simpa using hmore
        cases hn : t.node? (p ++ [name]) with
        | none => exact ⟨_, .gap hstep hn⟩
        | some n =>
          cases n with
          | dir m => exact (ih (p ++ [name])).imp fun _ => .enter hstep hn
          | file m c => exact ⟨_, .file hstep hn⟩
          | link target =>
            by_cases hkeep : keepLast = true
            · exact ⟨_, .link hstep hkeep hn⟩
            · exact hlink hstep hn fun h => absurd h hkeep

theorem exists_trail (t : Tree) (keepLast : Bool) (links : Nat) (slash : Bool) (p : Place)
    (names : List RawText) : ∃ s, Trail t keepLast links slash p names s := by
  induction links generalizing slash p names with
  | zero => exact exists_trail_of_links (fun hstep hn hgo => ⟨_, .loop hstep hn hgo⟩) slash p names
  | succ links ih =>
    refine exists_trail_of_links (fun hstep hn hgo => ?_) slash p names
    obtain ⟨s, hs⟩ := ih _ _ _
    exact ⟨s, .jump hstep hn hgo hs⟩

/-! ### What stands at a stop -/

theorem Trail.node_standing {links : Nat} {slash : Bool} {p q : Place} {names : List RawText}
    {n : Node} (h : Trail t keepLast links slash p names (.node q n)) : t.node? q = some n := by
  generalize hs : Stop.node q n = s at h
  induction h with
  | here hn => cases hs; exact hn
  | stay _ ih | up _ ih | enter _ _ _ ih | jump _ _ _ _ ih => exact ih hs
  | file _ hn | link _ _ hn => cases hs; exact hn
  | _ => cases hs

theorem Trail.want_missing {links : Nat} {slash : Bool} {p q : Place} {names : List RawText}
    {last : Option Bool} (h : Trail t keepLast links slash p names (.want q last)) :
    t.node? q = none := by
  generalize hs : Stop.want q last = s at h
  induction h with
  | lost hn | gap _ hn | missing _ hn _ => cases hs; exact hn
  | stay _ ih | up _ ih | enter _ _ _ ih | jump _ _ _ _ ih => exact ih hs
  | _ => cases hs

theorem Trail.refused_ne_notFound {links : Nat} {slash : Bool} {p : Place} {names : List RawText}
    {e : IoError} (h : Trail t keepLast links slash p names (.refused e)) : e ≠ .notFound := by
  generalize hs : Stop.refused e = s at h
  induction h with
  | stay _ ih | up _ ih | enter _ _ _ ih | jump _ _ _ _ ih => exact ih hs
  | long | blocked | loop => cases hs; decide
  | _ => cases hs

/-! ### Paths -/

/-- A text that the system takes as a path. -/
structure IsPath (path : RawText) : Prop where
  no_nul : 0 ∉ path.bytes
  ne_empty : path.bytes ≠ []
  fits : path.byteSize ≤ pathLimit

/-- The trail of a path from the root. -/
def PathTrail (t : Tree) (keepLast : Bool) (path : RawText) (s : Stop) : Prop :=
  Trail t keepLast linkLimit (Route.ofPath path).slash [] (Route.ofPath path).names s

theorem walk_of_trail {path : RawText} {s : Stop} (hp : IsPath path)
    (h : PathTrail t keepLast path s) : t.walk keepLast path = s.answer := by
  rw [walk, if_neg hp.no_nul, if_neg hp.ne_empty, if_neg (Nat.not_lt.mpr hp.fits)]
  exact h.follow_eq

theorem exists_pathTrail {path : RawText} (hp : IsPath path) (t : Tree) (keepLast : Bool) :
    ∃ s, PathTrail t keepLast path s ∧ t.walk keepLast path = s.answer := by
  obtain ⟨s, hs⟩ := exists_trail t keepLast linkLimit (Route.ofPath path).slash []
    (Route.ofPath path).names
  exact ⟨s, hs, walk_of_trail hp hs⟩

theorem walk_of_route {path path' : RawText} (hp : IsPath path)
    (hp' : IsPath path') (h : Route.ofPath path = Route.ofPath path') :
    t.walk keepLast path = t.walk keepLast path' := by
  obtain ⟨s, hs, hwalk⟩ := exists_pathTrail hp t keepLast
  rw [PathTrail, h] at hs
  rw [hwalk, walk_of_trail hp' hs]

/-- Only a text that is taken as a path leads anywhere. -/
theorem isPath_of_walk {path : RawText} {l : Landing} (h : t.walk keepLast path = .ok l) :
    IsPath path := by
  rw [walk] at h
  split at h
  · cases h
  · next hnul =>
    split at h
    · cases h
    · next hempty =>
      split at h
      · cases h
      · next hlong => exact ⟨hnul, hempty, Nat.not_lt.mp hlong⟩

theorem walk_eq_node_iff {path : RawText} {q : Place} {n : Node} :
    t.walk keepLast path = .ok (.node q n) ↔
      IsPath path ∧ PathTrail t keepLast path (.node q n) := by
  constructor
  · intro h
    have hp := isPath_of_walk h
    obtain ⟨s, hs, hw⟩ := exists_pathTrail hp t keepLast
    rw [h] at hw
    cases s with
    | node q' n' => cases hw; exact ⟨hp, hs⟩
    | want q' last => cases last <;> cases hw
    | refused e => cases hw
  · rintro ⟨hp, hs⟩
    exact walk_of_trail hp hs

theorem walk_eq_gap_iff {path : RawText} {q : Place} {slash : Bool} :
    t.walk keepLast path = .ok (.gap q slash) ↔
      IsPath path ∧ PathTrail t keepLast path (.want q (some slash)) := by
  constructor
  · intro h
    have hp := isPath_of_walk h
    obtain ⟨s, hs, hw⟩ := exists_pathTrail hp t keepLast
    rw [h] at hw
    cases s with
    | node q' n' => cases hw
    | want q' last =>
      cases last with
      | none => cases hw
      | some slash' => cases hw; exact ⟨hp, hs⟩
    | refused e => cases hw
  · rintro ⟨hp, hs⟩
    exact walk_of_trail hp hs

/-! ### Looking -/

theorem stat_eq_ok_iff {path : RawText} {q : Place} {n : Node} :
    t.stat path = .ok (q, n) ↔ t.walk false path = .ok (.node q n) := by
  rw [stat]
  cases hw : t.walk false path with
  | error e => simp [bind, Except.bind]
  | ok l => cases l <;> simp [bind, Except.bind, standing]

theorem linkStat_eq_ok_iff {path : RawText} {q : Place} {n : Node} :
    t.linkStat path = .ok (q, n) ↔ t.walk true path = .ok (.node q n) := by
  rw [linkStat]
  cases hw : t.walk true path with
  | error e => simp [bind, Except.bind]
  | ok l => cases l <;> simp [bind, Except.bind, standing]

theorem node?_of_stat {path : RawText} {q : Place} {n : Node} (h : t.stat path = .ok (q, n)) :
    t.node? q = some n :=
  (walk_eq_node_iff.mp (stat_eq_ok_iff.mp h)).2.node_standing

/-- Where a path leads somewhere, it also names something, if only a link. -/
theorem Trail.names_something {links : Nat} {slash : Bool} {p q : Place} {names : List RawText}
    {n : Node} (h : Trail t false links slash p names (.node q n)) :
    ∃ q' n', Trail t true links slash p names (.node q' n') := by
  generalize hs : Stop.node q n = s at h
  induction h with
  | here hn => exact ⟨_, _, .here hn⟩
  | stay _ ih =>
    obtain ⟨q', n', h⟩ := ih hs
    exact ⟨q', n', .stay h⟩
  | up _ ih =>
    obtain ⟨q', n', h⟩ := ih hs
    exact ⟨q', n', .up h⟩
  | enter hstep hn _ ih =>
    obtain ⟨q', n', h⟩ := ih hs
    exact ⟨q', n', .enter hstep hn h⟩
  | file hstep hn => exact ⟨_, _, .file hstep hn⟩
  | link _ hkeep => cases hkeep
  | @jump _ slash _ _ rest _ _ hstep hn _ _ ih =>
    by_cases hmore : rest ≠ [] ∨ slash = true
    · obtain ⟨q', n', h⟩ := ih hs
      exact ⟨q', n', .jump hstep hn (fun _ => hmore) h⟩
    · obtain ⟨rfl, rfl⟩ : rest = [] ∧ slash = false := by simpa using hmore
      exact ⟨_, _, .link hstep rfl hn⟩
  | _ => cases hs

theorem linkStat_of_stat {path : RawText} {q : Place} {n : Node} (h : t.stat path = .ok (q, n)) :
    ∃ q' n', t.linkStat path = .ok (q', n') := by
  obtain ⟨hpath, htrail⟩ := walk_eq_node_iff.mp (stat_eq_ok_iff.mp h)
  obtain ⟨q', n', htrail'⟩ := htrail.names_something
  exact ⟨q', n', linkStat_eq_ok_iff.mpr (walk_eq_node_iff.mpr ⟨hpath, htrail'⟩)⟩

/-- What is named is what the path leads to, unless it is a link. -/
theorem Trail.leads_there {links : Nat} {slash : Bool} {p q : Place} {names : List RawText}
    {n : Node} (h : Trail t true links slash p names (.node q n))
    (hlink : ∀ target, n ≠ .link target) : Trail t false links slash p names (.node q n) := by
  generalize hs : Stop.node q n = s at h
  induction h with
  | here hn => exact .here hn
  | stay _ ih => exact .stay (ih hs)
  | up _ ih => exact .up (ih hs)
  | enter hstep hn _ ih => exact .enter hstep hn (ih hs)
  | file hstep hn => exact .file hstep hn
  | @link _ _ _ target _ _ _ =>
    cases hs
    exact absurd rfl (hlink target)
  | jump hstep hn _ _ ih => exact .jump hstep hn (fun hkeep => nomatch hkeep) (ih hs)
  | _ => cases hs

theorem stat_of_linkStat {path : RawText} {q : Place} {n : Node}
    (h : t.linkStat path = .ok (q, n)) (hlink : ∀ target, n ≠ .link target) :
    t.stat path = .ok (q, n) := by
  obtain ⟨hpath, htrail⟩ := walk_eq_node_iff.mp (linkStat_eq_ok_iff.mp h)
  exact stat_eq_ok_iff.mpr (walk_eq_node_iff.mpr ⟨hpath, htrail.leads_there hlink⟩)

/-- Nothing is found without a path. -/
theorem stat_of_bytes_eq_nil {path : RawText} (h : path.bytes = []) :
    t.stat path = .error .notFound := by
  rw [stat, walk, if_neg (by simp [h]), if_pos h]
  rfl

/-- A path is absent if its trail ends for want of something. -/
theorem stat_eq_notFound_iff {path : RawText} :
    t.stat path = .error .notFound ↔
      path.bytes = [] ∨ IsPath path ∧ ∃ q last, PathTrail t false path (.want q last) := by
  constructor
  · intro h
    by_cases hempty : path.bytes = []
    · exact Or.inl hempty
    · have hp : IsPath path := by
        rw [stat, walk, if_neg hempty] at h
        split at h
        · cases h
        · next hnul =>
          split at h
          · cases h
          · next hlong => exact ⟨hnul, hempty, Nat.not_lt.mp hlong⟩
      obtain ⟨s, hs, hw⟩ := exists_pathTrail hp t false
      rw [stat, hw] at h
      cases s with
      | node q n => cases h
      | want q last => exact Or.inr ⟨hp, q, last, hs⟩
      | refused e =>
        cases h
        exact absurd rfl hs.refused_ne_notFound
  · rintro (hempty | ⟨hp, q, last, hs⟩)
    · exact stat_of_bytes_eq_nil hempty
    · rw [stat, walk_of_trail hp hs]
      cases last <;> rfl

theorem isPresent_eq_true_iff {path : RawText} :
    t.isPresent path = .ok true ↔ ∃ q n, t.stat path = .ok (q, n) := by
  rw [isPresent]
  cases t.stat path with
  | ok found => exact ⟨fun _ => ⟨found.1, found.2, rfl⟩, fun _ => rfl⟩
  | error e => by_cases he : e = .notFound <;> simp [he]

theorem isPresent_eq_false_iff {path : RawText} :
    t.isPresent path = .ok false ↔ t.stat path = .error .notFound := by
  rw [isPresent]
  cases t.stat path with
  | ok found => simp
  | error e => by_cases he : e = .notFound <;> simp [he]

theorem isPresent_eq_error_iff {path : RawText} {e : IoError} :
    t.isPresent path = .error e ↔ t.stat path = .error e ∧ e ≠ .notFound := by
  rw [isPresent]
  cases t.stat path with
  | ok found => simp
  | error e' =>
    dsimp only
    split
    · next he' => simp [he', eq_comm]
    · next he' =>
      simp only [Except.error.injEq]
      constructor
      · rintro rfl
        exact ⟨rfl, he'⟩
      · exact fun h => h.1

end Tree

end BuildTargets
