/-
  BuildTargets/Proofs/Repair/Footprint.lean
  =========================================
  **What a fix leaves behind on the host.**

  Whatever a fix of all build targets comes to, and however far it gets, the tree
  of the host differs in two things only: directories of targets are open to
  everybody, and loader configurations of targets have been created where nothing
  stood (`Footprint`, `fix_footprint`).  Links are followed to both, so a place
  belongs to a target if the path of the target leads there.

  Most of what a fix does are requests, and these leave the tree as it is.  The
  rest are two parts, one for each kind of change, and a footprint grows along
  their steps: a path that leads to a directory or to a gap after some of these
  changes has led there before.
-/
import BuildTargets.Proofs.Repair.Progress
import BuildTargets.Proofs.Repair.Script
import BuildTargets.Proofs.Tree.Proper

namespace BuildTargets.Repair

open BuildTargets

variable {host : HostView} {owners : List String} {t t' t'' : Tree}

/-! ### Footprints -/

/-- The directory of a container, where its path leads to, has been opened. -/
structure OpenedAt (host : HostView) (t t' : Tree) (container : String) (p : Place) : Prop where
  before : ∃ m, t.stat (host.path (host.dirOf container)) = .ok (p, .dir m)
  after : t'.node? p = some (.dir 0o755)

/-- The loader configuration of a container has been created, where its path leads
    to and nothing stood. -/
structure CreatedAt (host : HostView) (t t' : Tree) (container : String) (p : Place) : Prop where
  before : t.walk false (host.path (loaderConfigPath host container)) = .ok (.gap p false)
  after : t'.stat (host.path (loaderConfigPath host container)) =
    .ok (p, .file 0o664 (Text.encode "/usr/lib/nvidia-gl\n"))

/-- The trees differ in directories and configurations of some containers. -/
structure Footprint (host : HostView) (owners : List String) (t t' : Tree) : Prop where
  kept : ∀ {p n}, t.node? p = some n →
    t'.node? p = some n ∨ ∃ container ∈ owners, OpenedAt host t t' container p
  added : ∀ {p n}, t.node? p = none → t'.node? p = some n →
    ∃ container ∈ owners, CreatedAt host t t' container p

theorem OpenedAt.standing {container : String} {p : Place} (h : OpenedAt host t t' container p) :
    ∃ m, t.node? p = some (.dir m) := by
  obtain ⟨m, hstat⟩ := h.before
  exact ⟨m, Tree.node?_of_stat hstat⟩

namespace Footprint

theorem refl (host : HostView) (owners : List String) (t : Tree) : Footprint host owners t t where
  kept := Or.inl
  added := by
    intro p n hnone hn
    rw [hnone] at hn
    cases hn

theorem grows (h : Footprint host owners t t') : t.Grows accessibleMode t' where
  kept := by
    intro p n hn
    rcases h.kept hn with hn' | ⟨container, -, hopened⟩
    · exact Or.inl hn'
    · obtain ⟨m, hdir⟩ := hopened.standing
      rw [hn, Option.some.injEq] at hdir
      subst hdir
      exact Or.inr ⟨rfl, hopened.after⟩
  added := by
    intro p n hnone hn
    obtain ⟨container, -, hcreated⟩ := h.added hnone hn
    have hfile := Tree.node?_of_stat hcreated.after
    rw [hn, Option.some.injEq] at hfile
    exact ⟨_, _, hfile⟩

/-- What has been opened stays open. -/
theorem openedAt (h : Footprint host owners t' t'') {container : String} {p : Place}
    (hopened : OpenedAt host t t' container p) : OpenedAt host t t'' container p := by
  refine ⟨hopened.before, ?_⟩
  rcases h.kept hopened.after with hn | ⟨other, -, hagain⟩
  · exact hn
  · exact hagain.after

/-- What has been created stays as it is. -/
theorem createdAt (h : Footprint host owners t' t'') {container : String} {p : Place}
    (hcreated : CreatedAt host t t' container p) : CreatedAt host t t'' container p := by
  refine ⟨hcreated.before, ?_⟩
  obtain ⟨n, hstat, hn | ⟨hdir, -⟩⟩ := h.grows.stat hcreated.after
  · rw [hstat, hn]
  · cases hdir

theorem trans (h : Footprint host owners t t') (h' : Footprint host owners t' t'') :
    Footprint host owners t t'' where
  kept := by
    intro p n hn
    rcases h.kept hn with hn' | ⟨container, howner, hopened⟩
    · rcases h'.kept hn' with hn'' | ⟨container, howner, hopened⟩
      · exact Or.inl hn''
      · obtain ⟨m, hstat⟩ := hopened.before
        exact Or.inr ⟨container, howner, h.grows.stat_dir_back hstat, hopened.after⟩
    · exact Or.inr ⟨container, howner, h'.openedAt hopened⟩
  added := by
    intro p n hnone hn
    cases hmid : t'.node? p with
    | none =>
      obtain ⟨container, howner, hcreated⟩ := h'.added hmid hn
      exact ⟨container, howner, h.grows.gap_back hcreated.before, hcreated.after⟩
    | some n' =>
      obtain ⟨container, howner, hcreated⟩ := h.added hnone hmid
      exact ⟨container, howner, h'.createdAt hcreated⟩

theorem setMode {container : String} {p : Place} {m : Nat} (howner : container ∈ owners)
    (hstat : t.stat (host.path (host.dirOf container)) = .ok (p, .dir m)) :
    Footprint host owners t (t.setMode p accessibleMode) where
  kept := by
    intro q n hn
    rw [Tree.node?_setMode]
    split
    · next hq =>
      subst hq
      refine Or.inr ⟨container, howner, ⟨m, hstat⟩, ?_⟩
      rw [Tree.node?_setMode, if_pos rfl, Tree.node?_of_stat hstat]
      rfl
    · exact Or.inl hn
  added := by
    intro q n hnone hn
    rw [Tree.node?_setMode, hnone] at hn
    split at hn <;> cases hn

theorem put {container : String} {q : Place} (howner : container ∈ owners)
    (hgap : t.walk false (host.path (loaderConfigPath host container)) = .ok (.gap q false)) :
    Footprint host owners t
      (t.put q (.file loaderConfigMode (Text.encode loaderConfigText))) where
  kept := by
    intro p n hn
    have hmissing := (Tree.walk_eq_gap_iff.mp hgap).2.want_missing
    rw [Tree.node?_put]
    split
    · next hp => rw [hp, hmissing] at hn; cases hn
    · exact Or.inl hn
  added := by
    intro p n hnone hn
    rw [Tree.node?_put] at hn
    split at hn
    · next hp =>
      subst hp
      exact ⟨container, howner, hgap, Tree.stat_put_of_gap hgap⟩
    · rw [hnone] at hn
      cases hn

/-! ### What a footprint excludes -/

/-- No file and no link has been changed. -/
theorem not_dir (h : Footprint host owners t t') {p : Place} {n : Node}
    (hn : t.node? p = some n) (hdir : n.isDir = false) : t'.node? p = some n :=
  h.grows.not_dir hn hdir

/-- A path that leads to something has done so before, or leads to one of the new
    configurations. -/
theorem stat_back (h : Footprint host owners t t') {path : RawText} {q : Place} {n : Node}
    (hstat : t'.stat path = .ok (q, n)) :
    (∃ m, t.stat path = .ok (q, m)) ∨ ∃ container ∈ owners, CreatedAt host t t' container q := by
  obtain ⟨hpath, htrail⟩ := Tree.walk_eq_node_iff.mp (Tree.stat_eq_ok_iff.mp hstat)
  cases hq : t.node? q with
  | none => exact Or.inr (h.added hq htrail.node_standing)
  | some m =>
    have hback := h.grows.trail_node_back hq htrail
    exact Or.inl ⟨m, Tree.stat_eq_ok_iff.mpr (Tree.walk_eq_node_iff.mpr ⟨hpath, hback⟩)⟩

end Footprint

/-! ### The footprint of a fix -/

variable {ctx : Context} {mode : Mode} {c : Container} {w w' w'' : World Store}

/-- The directory that is opened is the one that the path of the container leads
    to, whichever links are on the way. -/
theorem stat_dirOf_of_accessOf (hproper : t.IsProper) {container : String} {path : RawText}
    {bits : Nat} (h : accessOf host t container = .ok (path, bits)) :
    ∃ p m, t.stat path = .ok (p, .dir m) ∧
      t.stat (host.path (host.dirOf container)) = .ok (p, .dir m) := by
  obtain ⟨hdir, p, m, hstat, -⟩ := accessOf_eq_ok_iff.mp h
  obtain ⟨q, n, -, ⟨-, hreal⟩ | ⟨-, rfl⟩⟩ := dirPath_eq_ok_iff.mp hdir
  · exact ⟨p, m, hstat, (hproper.stat_realPath hreal).symm.trans hstat⟩
  · exact ⟨p, m, hstat, hstat⟩

/-- From a proper tree with all its targets among the owners, a run leaves a
    footprint, and again such a tree. -/
structure Leaves (host : HostView) (owners : List String) (w w' : World Store) : Prop where
  onward : w.Onward w'
  leaves : w.tree.IsProper → w'.tree.IsProper ∧ Footprint host owners w.tree w'.tree

theorem Leaves.trans (h : Leaves host owners w w') (h' : Leaves host owners w' w'') :
    Leaves host owners w w'' := by
  refine ⟨h.onward.trans h'.onward, fun hproper => ?_⟩
  obtain ⟨hproper', hfoot⟩ := h.leaves hproper
  obtain ⟨hproper'', hfoot'⟩ := h'.leaves hproper'
  exact ⟨hproper'', hfoot.trans hfoot'⟩

theorem Leaves.of_tree_eq (hon : w.Onward w') (htree : w'.tree = w.tree) :
    Leaves host owners w w' := by
  refine ⟨hon, fun hproper => ?_⟩
  rw [htree]
  exact ⟨hproper, .refl host owners w.tree⟩

theorem Leaves.refl (w : World Store) : Leaves host owners w w := .of_tree_eq (.refl w) rfl

theorem leaves_of_asks {x : Action (World Store) Unit} (hon : GoesOnward x)
    (hrun : ∀ w, ∃ s : Script, s.OnlyAsks ∧ x.run w = (s.follow ctx mode).run w) :
    Keeps (Leaves host owners) x := by
  intro w
  obtain ⟨s, hasks, hs⟩ := hrun w
  refine .of_tree_eq (hon w) ?_
  rw [hs]
  exact hasks.keeps_tree w

theorem leaves_keepAccess (howner : c.name ∈ owners) :
    Keeps (Leaves ctx.host owners) (keepAccess ctx mode c) := by
  intro w
  refine ⟨goesOnward_keepAccess w, fun hproper => ?_⟩
  rw [run_keepAccess]
  cases haccess : accessOf ctx.host w.tree c.name with
  | error e => exact ⟨hproper, .refl ..⟩
  | ok found =>
    obtain ⟨path, bits⟩ := found
    obtain ⟨p, m, hstat, hdir⟩ := stat_dirOf_of_accessOf hproper haccess
    dsimp only
    split
    · exact ⟨hproper, .refl ..⟩
    · cases mode with
      | check => exact ⟨hproper, .refl ..⟩
      | fix =>
        simp only [meet, World.run_change, HostChange.apply, Tree.chmod_of_stat hstat, stateOf_ok]
        exact ⟨hproper.setMode p accessibleMode, .setMode howner hdir⟩

theorem leaves_keepLoaderConfig (howner : c.name ∈ owners) :
    Keeps (Leaves ctx.host owners) (keepLoaderConfig ctx mode c) := by
  intro w
  refine ⟨goesOnward_keepLoaderConfig w, fun hproper => ?_⟩
  rw [run_keepLoaderConfig]
  cases hpresent : ctx.host.isPresent w.tree (loaderConfigPath ctx.host c.name) with
  | error e => exact ⟨hproper, .refl ..⟩
  | ok present =>
    cases present with
    | true => exact ⟨hproper, .refl ..⟩
    | false =>
      cases mode with
      | check => exact ⟨hproper, .refl ..⟩
      | fix =>
        -- the file is created with its permission bits, or nothing is
        rcases run_writeLoaderConfig hpresent with ⟨e, detail, -, hrun⟩ | ⟨q, hgap, hrun⟩
        · simp only [meet, hrun, stateOf_error]
          exact ⟨hproper, .refl ..⟩
        · simp only [meet, hrun, stateOf_ok]
          exact ⟨hproper.put_gap hgap rfl, .put howner hgap⟩

theorem leaves_keepDriver {seeker : String} (howner : c.name ∈ owners) :
    Keeps (Leaves ctx.host owners) (keepDriver seeker ctx mode c) := by
  have hlibraries (driver : Driver) :
      Keeps (Leaves ctx.host owners) (keepLibraries ctx mode c driver) :=
    leaves_of_asks (goesOnward_keepLibraries driver) fun w =>
      ⟨_, onlyAsks_librariesScript c driver, keepLibraries_follows w c driver⟩
  have hnodes : Keeps (Leaves ctx.host owners) (keepDriverNodes ctx mode c) :=
    leaves_of_asks goesOnward_keepDriverNodes fun w =>
      ⟨_, onlyAsks_nodesScript c _ _, keepDriverNodes_follows w c⟩
  have htrans (w w' w'' : World Store) (h : Leaves ctx.host owners w w')
      (h' : Leaves ctx.host owners w' w'') : Leaves ctx.host owners w w'' := h.trans h'
  have hparts (driver : Driver) :
      Keeps (Leaves ctx.host owners) (keepDriverParts ctx mode c driver) :=
    .bind htrans (hlibraries driver) fun _ =>
      .bind htrans (leaves_keepLoaderConfig howner) fun _ => hnodes
  intro w
  rw [run_keepDriver]
  split
  · split
    · next driver hknown =>
      have hrecalled : Leaves ctx.host owners w (remembering w seeker driver) :=
        .of_tree_eq (onward_remembering hknown) rfl
      exact hrecalled.trans (hparts driver _)
    · exact .refl w
    · exact .refl w
  · exact .refl w
  · exact .refl w

theorem leaves_run {seeker : String} {r : Repair Store} (hr : r ∈ standard seeker)
    (howner : c.name ∈ owners) : Keeps (Leaves ctx.host owners) (r.run ctx mode c) := by
  simp only [standard, List.mem_cons, List.not_mem_nil, or_false] at hr
  rcases hr with rfl | rfl | rfl | rfl
  · exact leaves_keepAccess howner
  · exact leaves_of_asks (GoesOnward.forM fun e _ => goesOnward_keepResource e.1 e.2) fun w =>
      ⟨_, onlyAsks_resourcesScript ctx.host w.tree c, keepResources_follows w c⟩
  · exact leaves_of_asks goesOnward_keepRenderNodes fun w =>
      ⟨_, onlyAsks_renderNodesScript ctx.host w.tree c, keepRenderNodes_follows w c⟩
  · exact leaves_keepDriver howner

/-- The names of the build targets of a store. -/
def targetNames (s : Store) : List String := (targetsOf s).map (·.name)

/-- No run makes a target of something else. -/
theorem mem_targetNames_of_onward (hon : w.Onward w') (hc : c ∈ targetsOf w'.service) :
    c.name ∈ targetNames w.service := by
  obtain ⟨⟨name, hname⟩, htarget⟩ := mem_targetsOf_iff.mp hc
  obtain ⟨c₀, devices, hc₀, rfl⟩ := hon.stored_back hname
  exact List.mem_map.mpr ⟨c₀, mem_targetsOf_iff.mpr ⟨⟨name, hc₀⟩, htarget⟩, rfl⟩

theorem leaves_onTargets {seeker : String} {r : Repair Store} (hr : r ∈ standard seeker)
    {w₀ : World Store} (hon : w₀.Onward w) :
    Leaves ctx.host (targetNames w₀.service) w (stateOf ((r.onTargets ctx mode).run w)) := by
  rw [run_onTargets]
  split
  · exact .refl w
  · exact Keeps.forM Leaves.refl (fun _ _ _ h h' => h.trans h')
      (fun c hc => leaves_run hr (mem_targetNames_of_onward hon hc)) w

theorem leaves_fixAll (ctx : Context) (seeker : String) (w : World Store) :
    Leaves ctx.host (targetNames w.service) w
      (stateOf ((fixAll (standard seeker) ctx).run w)) := by
  let R (w₁ w₂ : World Store) : Prop :=
    w.Onward w₁ → Leaves ctx.host (targetNames w.service) w₁ w₂
  have htrans (w₁ w₂ w₃ : World Store) (h : R w₁ w₂) (h' : R w₂ w₃) : R w₁ w₃ := fun hon =>
    (h hon).trans (h' (hon.trans (h hon).onward))
  have hrepairs : Keeps R ((standard seeker).forM fun r => r.onTargets ctx .fix) :=
    .forM (fun w₁ _ => .refl w₁) htrans fun r hr w₁ hon => leaves_onTargets hr hon
  have hauthorize : Keeps R
      (MonadExcept.ofExcept (authorize (standard (β := Store) seeker) ctx.privileged)) := by
    intro w₁ _
    cases authorize (standard (β := Store) seeker) ctx.privileged <;> exact .refl w₁
  exact Keeps.bind htrans hauthorize (fun _ => hrepairs) w (.refl w)

/-- Whatever a fix of all build targets comes to, it leaves a footprint of the
    targets and nothing else: no file and no link is changed, each target has at
    most one new configuration, and a path, claimed by a device or not, leads to
    something new only if that is one of these. -/
theorem fix_footprint (ctx : Context) (seeker : String) (w : World Store)
    (hproper : w.tree.IsProper) :
    let t := w.tree
    let t' := (stateOf ((fixAll (standard seeker) ctx).run w)).tree
    let targets := targetNames w.service
    Footprint ctx.host targets t t' ∧
      (∀ p n, t.node? p = some n → n.isDir = false → t'.node? p = some n) ∧
      (∀ container p p', CreatedAt ctx.host t t' container p →
        CreatedAt ctx.host t t' container p' → p = p') ∧
      ∀ path q n, t'.stat path = .ok (q, n) → (∃ m, t.stat path = .ok (q, m)) ∨
        ∃ container ∈ targets, CreatedAt ctx.host t t' container q := by
  intro t t' targets
  have hfoot : Footprint ctx.host targets t t' := ((leaves_fixAll ctx seeker w).leaves hproper).2
  refine ⟨hfoot, fun p n => hfoot.not_dir, fun container p p' h h' => ?_, fun path q n =>
    hfoot.stat_back⟩
  have hafter := h.after
  rw [h'.after] at hafter
  cases hafter
  rfl

/-- A target on a host with a driver.  Its directory is a link to a closed one, and
    its loader configuration a link that leads nowhere yet. -/
def linkedTarget : World Store where
  service := .ofContainers [plainTarget "c" .empty]
  tree := .laidOut [.dir "/srv/c" 0o700, .link "/var/lib/lxd/containers/c" "/srv/c",
    .link "/srv/c/rootfs/etc/ld.so.conf.d/01-nvidia.conf" "../nvidia.conf",
    .dir "/usr/lib/nvidia-384" 0o755,
    .file Driver.versionFile 0o444 (Text.encode "384.111")]

theorem fix_footprint_linkedTarget :
    let t := linkedTarget.tree
    let t' := (stateOf ((fixAll (standard "s") {}).run linkedTarget)).tree
    let created : Place := ["srv", "c", "rootfs", "etc", "nvidia.conf"]
    t.IsProper ∧ t.node? ["srv", "c"] = some (.dir 0o700) ∧
      t'.node? ["srv", "c"] = some (.dir 0o755) ∧ t.node? created = none ∧
      t'.node? created = some (.file 0o664 (Text.encode "/usr/lib/nvidia-gl\n")) ∧
      Footprint {} ["c"] t t' := by
  intro t t' created
  have hproper : t.IsProper := by decide +kernel
  have hnodes : t.node? ["srv", "c"] = some (.dir 0o700) ∧
      t'.node? ["srv", "c"] = some (.dir 0o755) ∧ t.node? created = none ∧
      t'.node? created = some (.file 0o664 (Text.encode "/usr/lib/nvidia-gl\n")) := by
    decide +kernel
  obtain ⟨hclosed, hopen, hnone, hfile⟩ := hnodes
  exact ⟨hproper, hclosed, hopen, hnone, hfile, (fix_footprint {} "s" linkedTarget hproper).1⟩

end BuildTargets.Repair
