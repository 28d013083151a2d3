/-
  BuildTargets/Proofs/Repair/Confinement.lean
  ===========================================
  **Where the loader configuration of a container is created.**

  The root file system of a container belongs to the container, and so do the links
  in it.  The loader configuration is created where the path of the container leads,
  from the host, with these links followed.  The way goes through the root file
  system, and the file is created below it, unless a link on the way from there on
  leads out of it (`creation_confined`).  Nothing keeps such a link from doing so
  (`creation_escapes`).
-/
import BuildTargets.Proofs.Repair.Footprint
import BuildTargets.Proofs.Tree.Confinement

namespace BuildTargets.Repair

open BuildTargets

variable {ctx : Context} {mode : Mode} {host : HostView} {seeker container : String}
  {t t' : Tree} {w w' : World Store}

/-! ### The path of the loader configuration -/

theorem lastField_rootfsOf (host : HostView) (container : String) :
    Path.lastField (host.rootfsOf container) = some "rootfs".toList := by
  rw [HostView.rootfsOf, Path.lastField_join]
  decide

/-- The names from the root file system of a container to its loader
    configuration. -/
def configNames : List RawText := ["etc", "ld.so.conf.d", "01-nvidia.conf"]

theorem path_loaderConfig (host : HostView) (container : String) :
    host.path (loaderConfigPath host container) = host.path (host.rootfsOf container) ++
      "/" ++ "etc" ++ "/" ++ "ld.so.conf.d" ++ "/" ++ "01-nvidia.conf" := by
  have hrootfs := lastField_rootfsOf host container
  have hjoin : loaderConfigPath host container = host.rootfsOf container ++
      "/" ++ "etc" ++ "/" ++ "ld.so.conf.d" ++ "/" ++ "01-nvidia.conf" := by
    rw [loaderConfigPath, Path.join_of_lastField hrootfs (by decide) (by decide), ← String.toList_inj]
    simp [loaderConfig]
  have hlast (dir : String) {entry : String} (hentry : '/' ∉ entry.toList) :
      Path.lastField (dir ++ "/" ++ entry) = some entry.toList := by
    rw [Path.lastField_append, Path.lastField, Text.split_eq_singleton hentry]
    rfl
  rw [hjoin, host.path_entry_of_lastField (hlast _ (by decide)) (by decide) (by decide) (by decide),
    host.path_entry_of_lastField (hlast _ (by decide)) (by decide) (by decide) (by decide),
    host.path_entry_of_lastField hrootfs (by decide) (by decide) (by decide)]

theorem names_loaderConfig (host : HostView) (container : String) :
    (Route.ofPath (host.path (loaderConfigPath host container))).names =
      (Route.ofPath (host.path (host.rootfsOf container))).names ++ configNames := by
  rw [path_loaderConfig, Path.names_entry _ (by decide) (by decide),
    Path.names_entry _ (by decide) (by decide), Path.names_entry _ (by decide) (by decide),
    List.append_assoc, List.append_assoc]
  rfl

theorem isPath_rootfs (h : Tree.IsPath (host.path (loaderConfigPath host container))) :
    Tree.IsPath (host.path (host.rootfsOf container)) := by
  have hlast : Path.lastField (host.path (host.rootfsOf container)) = some "rootfs".toList := by
    rw [HostView.path, Path.lastField_join]
    exact Path.lastField_belowRoot (lastField_rootfsOf host container) (by decide)
  have hlonger := path_loaderConfig host container
  obtain ⟨hnul, -, hfits⟩ := Tree.isPath_ofText_iff.mp h
  refine Tree.isPath_ofText_iff.mpr ⟨fun hmem => hnul ?_, fun hempty => ?_, Nat.le_trans ?_ hfits⟩
  · rw [hlonger]
    simp [hmem]
  · refine Path.toList_ne_nil_of_lastField hlast (by decide) ?_
    rw [hempty]
    rfl
  · rw [hlonger]
    simp only [String.utf8ByteSize_append]
    omega

/-! ### Where the file is created -/

/-- A place lies below the directory that the root file system of a container is. -/
def LiesInRootfs (host : HostView) (t : Tree) (container : String) (q : Place) : Prop :=
  ∃ top m below, t.stat (host.path (host.rootfsOf container)) = .ok (top, .dir m) ∧
    below ≠ [] ∧ q = top ++ below

/-- On the way from the root file system of a container to its loader configuration
    there is something that leads out of it. -/
def LeadsOut (host : HostView) (t : Tree) (container : String) : Prop :=
  ∃ top m, t.stat (host.path (host.rootfsOf container)) = .ok (top, .dir m) ∧
    t.Strays top top configNames

theorem confined_of_gap {q : Place} {b : Bool} (hproper : t.IsProper)
    (hgap : t.walk false (host.path (loaderConfigPath host container)) = .ok (.gap q b)) :
    LiesInRootfs host t container q ∨ LeadsOut host t container := by
  have hpath := isPath_rootfs (Tree.isPath_of_walk hgap)
  have hnames := names_loaderConfig host container
  obtain ⟨top, m, hstat, ⟨below, hbelow, rfl⟩ | hstrays⟩ :=
    hproper.gap_below hpath hnames (by decide) hgap
  · exact Or.inl ⟨top, m, below, hstat, hbelow, rfl⟩
  · exact Or.inr ⟨top, m, hstat, hstrays⟩

theorem leaves_onContainer {r : Repair Store} (hr : r ∈ standard seeker)
    (hkeyed : w.service.IsKeyed) (name : String) :
    Leaves ctx.host [name] w (stateOf ((r.onContainer ctx mode name).run w)) := by
  rw [run_onContainer]
  split
  · exact .refl w
  · split
    · next c hc =>
      have hname : c.name ∈ [name] := List.mem_singleton.mpr (hkeyed name c hc)
      exact leaves_run hr hname w
    · exact .refl w

/-- Whatever is new after a fix of the graphics driver is the loader configuration of
    a container that the fix was for, and it lies below the root file system of that
    container, unless something on the way from there on leads out. -/
theorem creation_confined (ctx : Context) (seeker name : String) (w : World Store)
    (hkeyed : w.service.IsKeyed) (hproper : w.tree.IsProper) :
    let r : Repair Store := graphicsDriver seeker
    let t := w.tree
    let one := (stateOf ((r.onContainer ctx .fix name).run w)).tree
    let all := (stateOf ((r.onTargets ctx .fix).run w)).tree
    (∀ q n, t.node? q = none → one.node? q = some n → CreatedAt ctx.host t one name q ∧
      (LiesInRootfs ctx.host t name q ∨ LeadsOut ctx.host t name)) ∧
    ∀ q n, t.node? q = none → all.node? q = some n → ∃ container ∈ targetNames w.service,
      CreatedAt ctx.host t all container q ∧
        (LiesInRootfs ctx.host t container q ∨ LeadsOut ctx.host t container) := by
  intro r t one all
  have hr : r ∈ standard seeker := by simp [standard, r]
  constructor
  · intro q n hnone hn
    obtain ⟨-, hfoot⟩ := (leaves_onContainer hr hkeyed name).leaves hproper
    obtain ⟨container, howner, hcreated⟩ := hfoot.added hnone hn
    rw [List.mem_singleton.mp howner] at hcreated
    exact ⟨hcreated, confined_of_gap hproper hcreated.before⟩
  · intro q n hnone hn
    obtain ⟨-, hfoot⟩ := (leaves_onTargets hr (.refl w)).leaves hproper
    obtain ⟨container, howner, hcreated⟩ := hfoot.added hnone hn
    exact ⟨container, howner, hcreated, confined_of_gap hproper hcreated.before⟩

/-- A target that has made a link of the directory for loader configurations, on a
    host with a driver. -/
def linkedConfigs (target : String) : World Store where
  service := .ofContainers [plainTarget "c" .empty]
  tree := .laidOut [.dir "/srv" 0o755, .dir "/var/lib/lxd/containers/c/rootfs/opt" 0o755,
    .link "/var/lib/lxd/containers/c/rootfs/etc/ld.so.conf.d" target,
    .dir "/usr/lib/nvidia-384" 0o755, .file Driver.versionFile 0o444 (Text.encode "384.111")]

theorem creation_confined_linkedConfigs :
    let r : Repair Store := graphicsDriver "s"
    let w := linkedConfigs "../opt"
    let t := w.tree
    let t' := (stateOf ((r.onContainer {} .fix "c").run w)).tree
    let created : Place :=
      ["var", "lib", "lxd", "containers", "c", "rootfs", "opt", "01-nvidia.conf"]
    w.service.IsKeyed ∧ t.IsProper ∧ t.node? created = none ∧
      t'.node? created = some (.file 0o664 (Text.encode "/usr/lib/nvidia-gl\n")) ∧
      (LiesInRootfs {} t "c" created ∨ LeadsOut {} t "c") := by
  intro r w t t' created
  have hkeyed : w.service.IsKeyed := Store.isKeyed_ofContainers _
  have hproper : t.IsProper := by decide +kernel
  have hcreated : t.node? created = none ∧
      t'.node? created = some (.file 0o664 (Text.encode "/usr/lib/nvidia-gl\n")) := by
    decide +kernel
  obtain ⟨hnone, hfile⟩ := hcreated
  obtain ⟨hone, -⟩ := creation_confined {} "s" "c" w hkeyed hproper
  exact ⟨hkeyed, hproper, hnone, hfile, (hone created _ hnone hfile).2⟩

/-- A link in the root file system of a container makes a fix create the file
    elsewhere on the host, if its target is absolute or goes up far enough. -/
theorem creation_escapes :
    Tree.IsName "c" ∧ ∀ target ∈ ["/srv", "../../../../../../../srv"],
      let r : Repair Store := graphicsDriver "s"
      let w := linkedConfigs target
      let t' := (stateOf ((r.onContainer {} .fix "c").run w)).tree
      w.service.IsKeyed ∧ w.tree.IsProper ∧
        ∃ q n, w.tree.node? q = none ∧ t'.node? q = some n ∧ ¬LiesInRootfs {} w.tree "c" q := by
  refine ⟨by decide +kernel, fun target htarget => ?_⟩
  intro r w t'
  have hfacts : w.tree.IsProper ∧ w.tree.node? ["srv", "01-nvidia.conf"] = none ∧
      t'.node? ["srv", "01-nvidia.conf"] =
        some (.file 0o664 (Text.encode "/usr/lib/nvidia-gl\n")) ∧
      w.tree.stat "/var/lib/lxd/containers/c/rootfs" =
        .ok (["var", "lib", "lxd", "containers", "c", "rootfs"], .dir 0o755) := by
    revert target
    decide +kernel
  obtain ⟨hproper, hnone, hfile, hrootfs⟩ := hfacts
  refine ⟨Store.isKeyed_ofContainers _, hproper, _, _, hnone, hfile, ?_⟩
  rintro ⟨top, m, below, hstat, -, hq⟩
  have hpath : ({} : HostView).path (({} : HostView).rootfsOf "c") =
      "/var/lib/lxd/containers/c/rootfs" := by
    decide +kernel
  rw [hpath, hrootfs] at hstat
  cases hstat
  simp at hq

end BuildTargets.Repair
