/-
  BuildTargets/Proofs/Repair/Compliance.lean
  ==========================================
  **What a check stands for.**

  `Compliant` says of a container what the four repairs want of it, without a
  word about how they look: in terms of what stands where in the tree, and of
  the devices that the container has.  A check that begins without a remembered
  driver passes if and only if all build targets are compliant
  (`check_passes_iff`), so nothing that cannot be looked at ever counts as in
  order.
-/
import BuildTargets.Proofs.Repair.Clear

namespace BuildTargets

/-! ### What devices claim -/

/-- The host paths that a device cannot do without. -/
inductive Device.Claims (d : Device) : String → Prop where
  /-- A disk claims its source. -/
  | source {source} (hneeded : d.property? "optional" ≠ some "true") (hkind : d.kind = .disk)
      (hsource : d.property? "source" = some source) (hne : source ≠ "") : d.Claims source
  /-- A character device claims the node at its path, if it lacks a number of the
      node. -/
  | node {path} (hneeded : d.property? "optional" ≠ some "true") (hkind : d.kind = .unixChar)
      (hnumbers : d.property? "major" = none ∨ d.property? "minor" = none)
      (hpath : d.property? "path" = some path) (hne : path ≠ "") :
      d.Claims ("/" ++ Device.withoutLeadingSlashes path)

/-- A device claims what its host path says, and nothing else. -/
theorem Device.claims_iff {d : Device} {path : String} :
    d.Claims path ↔ d.hostPath? = some path := by
  have hnumbers : (d.properties.contains "major" && d.properties.contains "minor") = false ↔
      d.property? "major" = none ∨ d.property? "minor" = none := by
    rw [Bool.and_eq_false_iff]
    simp [Dict.contains, Device.property?]
  have hfilter {value : String} (hne : value ≠ "") :
      (some value).filter (· ≠ "") = some value := by
    simp [hne]
  constructor
  · intro h
    cases h with
    | source hneeded hkind hsource hne =>
      have hrequired : d.isOptional = false := decide_eq_false hneeded
      rw [hostPath?, hrequired, hkind, hsource]
      exact hfilter hne
    | node hneeded hkind hlack hpath hne =>
      have hrequired : d.isOptional = false := decide_eq_false hneeded
      rw [hostPath?, hrequired, hkind, hnumbers.mpr hlack, hpath, hfilter hne]
      rfl
  · intro h
    unfold hostPath? at h
    split at h
    · cases h
    · next hoptional =>
      have hneeded : d.property? "optional" ≠ some "true" := by
        simpa [isOptional] using hoptional
      split at h
      · next hkind =>
        obtain ⟨hsource, hne⟩ := Option.filter_eq_some_iff.mp h
        exact .source hneeded hkind hsource (by simpa using hne)
      · next hkind =>
        split at h
        · cases h
        · next hboth =>
          obtain ⟨source, hsource, rfl⟩ := Option.map_eq_some_iff.mp h
          obtain ⟨hpath, hne⟩ := Option.filter_eq_some_iff.mp hsource
          have hlack := hnumbers.mp (by simpa using hboth)
          exact .node hneeded hkind hlack hpath (by simpa using hne)
      · cases h

namespace Repair

/-! ### Names of nodes -/

/-- A name that is a stem with a number. -/
def IsNumberedName (stem name : String) : Prop :=
  ∃ digits, digits ≠ [] ∧ (∀ d ∈ digits, d.isDigit = true) ∧ name.toList = stem.toList ++ digits

theorem isNumbered_iff {stem name : String} :
    isNumbered stem.toList name.toList = true ↔ IsNumberedName stem name := by
  unfold isNumbered IsNumberedName
  rw [Bool.and_eq_true, Bool.and_eq_true, List.isPrefixOf_iff_prefix, decide_eq_true_eq,
    List.all_eq_true]
  constructor
  · rintro ⟨⟨⟨digits, hdigits⟩, hne⟩, hall⟩
    rw [← hdigits, List.drop_left] at hne hall
    exact ⟨digits, hne, hall, hdigits.symm⟩
  · rintro ⟨digits, hne, hall, hname⟩
    rw [hname, List.drop_left]
    exact ⟨⟨List.prefix_append _ _, hne⟩, hall⟩

def IsRenderName (name : String) : Prop :=
  IsNumberedName "card" name ∨ IsNumberedName "renderD" name

theorem isRenderNode_iff {name : String} : isRenderNode name = true ↔ IsRenderName name := by
  rw [isRenderNode, Bool.or_eq_true, isNumbered_iff, isNumbered_iff, IsRenderName]

def IsDriverName (name : String) : Prop := ∃ rest, name.toList = "nvidia".toList ++ rest

theorem isDriverNode_iff {name : String} : isDriverNode name = true ↔ IsDriverName name := by
  rw [isDriverNode, List.isPrefixOf_iff_prefix]
  exact ⟨fun ⟨rest, h⟩ => ⟨rest, h.symm⟩, fun ⟨rest, h⟩ => ⟨rest, h.symm⟩⟩

/-! ### Compliant containers -/

/-- A container has the nodes of a directory with names of a class, directories
    left out, each under the text of its name.  A directory that is absent has no
    nodes; anything else that cannot be listed does not do. -/
def HasNodes (host : HostView) (t : Tree) (dir : String) (P : String → Prop) (c : Container) :
    Prop :=
  t.stat (host.path dir) = .error .notFound ∨
    ∃ p m, t.stat (host.path dir) = .ok (p, .dir m) ∧
      ∀ name n, t.node? (p ++ [name]) = some n → n.isDir = false → P name.shown →
        c.hasDevice (dir ++ "/" ++ name.shown) = true

/-- A container has what it needs of a driver. -/
structure HasDriver (host : HostView) (t : Tree) (driver : Driver) (c : Container) : Prop where
  libraries : ∃ device, c.devices.get? libraryDevice = some device ∧
    device.property? "source" = some driver.libraries
  config : ∃ q n, t.stat (host.path (loaderConfigPath host c.name)) = .ok (q, n)
  nodes : HasNodes host t driverNodeDir IsDriverName c

/-- A container that is as it has to be. -/
structure Compliant (host : HostView) (t : Tree) (c : Container) : Prop where
  /-- Everybody can read its directory. -/
  directory : ∃ p m, t.stat (host.path (host.dirOf c.name)) = .ok (p, .dir m) ∧
    m % 0o10000 = 0o755
  /-- What its devices claim is there. -/
  devices : ∀ name device path, c.devices.get? name = some device → device.Claims path →
    ∃ q n, t.stat (host.path path) = .ok (q, n)
  /-- It has the render nodes, unless they are out of reach. -/
  renderNodes : host.confined = true ∨ HasNodes host t renderNodeDir IsRenderName c
  /-- It has what it needs of the driver, if one is loaded and can be used. -/
  driver : t.stat (host.path Driver.versionFile) = .error .notFound ∨
    ∃ text, t.readText (host.path Driver.versionFile) = .ok text ∧
      (Driver.ofVersion? text = none ∨ ∃ driver, Driver.ofVersion? text = some driver ∧
        (t.stat (host.path driver.libraries) = .error .notFound ∨
          (∃ q n, t.stat (host.path driver.libraries) = .ok (q, n)) ∧ HasDriver host t driver c))

/-- If the directory of a container is a link, nothing that is looked at to make its
    path free of links is too long for the host. -/
def LinkFits (host : HostView) (t : Tree) (c : Container) : Prop :=
  ∀ q target, t.linkStat (host.path (host.dirOf c.name)) = .ok (q, .link target) →
    t.LookupsFit (host.path (host.dirOf c.name))

section

variable {host : HostView} {t : Tree} {c : Container}

theorem accessClear_iff (h : t.IsProper) : AccessClear host t c ↔
    (∃ p m, t.stat (host.path (host.dirOf c.name)) = .ok (p, .dir m) ∧ m % 0o10000 = 0o755) ∧
      LinkFits host t c := by
  simp only [AccessClear, LinkFits, accessOf_eq_ok_iff, dirPath_eq_ok_iff]
  generalize RawText.ofText (host.path (host.dirOf c.name)) = path
  constructor
  · rintro ⟨path', ⟨q, n, hlink, hpath⟩, p, m, hstat, hbits⟩
    rcases hpath with ⟨-, hreal⟩ | ⟨hne, rfl⟩
    · have hsame := h.stat_realPath hreal
      exact ⟨⟨p, m, hsame.symm.trans hstat, hbits.symm⟩,
        fun _ _ _ => (Tree.realPath_eq_ok_iff.mp hreal).1⟩
    · refine ⟨⟨p, m, hstat, hbits.symm⟩, fun q' target hlink' => ?_⟩
      rw [hlink] at hlink'
      cases hlink'
      exact absurd rfl (hne target)
  · rintro ⟨⟨p, m, hstat, hbits⟩, hfits⟩
    obtain ⟨q, n, hlink⟩ := Tree.linkStat_of_stat hstat
    by_cases htarget : ∃ target, n = .link target
    · obtain ⟨target, rfl⟩ := id htarget
      have hlookups := hfits q target hlink
      have hreal := Tree.realPath_eq_ok_iff.mpr ⟨hlookups, p, _, hstat, rfl⟩
      have hsame := h.stat_realPath hreal
      exact ⟨_, ⟨q, _, hlink, Or.inl ⟨htarget, hreal⟩⟩, p, m, hsame.trans hstat, hbits.symm⟩
    · have hne (target : RawText) : n ≠ .link target := fun heq => htarget ⟨target, heq⟩
      exact ⟨path, ⟨q, n, hlink, Or.inr ⟨hne, rfl⟩⟩, p, m, hstat, hbits.symm⟩

theorem resourcesClear_iff : ResourcesClear host t c ↔
    ∀ name device path, c.devices.get? name = some device → device.Claims path →
      ∃ q n, t.stat (host.path path) = .ok (q, n) := by
  simp only [ResourcesClear, Device.claims_iff, HostView.isPresent, Tree.isPresent_eq_true_iff]
  exact ⟨fun h name device path hd hpath => h name device hd path hpath,
    fun h name device hd path hpath => h name device path hd hpath⟩

theorem nodesClear_iff {dir : String} {isWanted : String → Bool} {P : String → Prop}
    (hdir : HostView.withoutTrailingSlashes dir = dir)
    (hwanted : ∀ name, isWanted name = true ↔ P name) :
    NodesClear host t dir isWanted c ↔ HasNodes host t dir P c := by
  constructor
  · rintro ⟨nodes, hnodes, hhas⟩
    rcases Tree.nodes_eq_ok_iff.mp hnodes with ⟨p, m, hstat, -⟩ | ⟨habsent, -⟩
    · refine Or.inr ⟨p, m, hstat, fun name n hn hnotDir hname => hhas _ ?_⟩
      refine (Tree.mem_nodes_iff hnodes).mpr ⟨p, m, name, n, hstat, hn, ?_, hnotDir, ?_⟩
      · exact (hwanted name.shown).mpr hname
      · rw [hdir]
    · exact Or.inl habsent
  · rintro (habsent | ⟨p, m, hstat, hhas⟩)
    · refine ⟨[], Tree.nodes_eq_ok_iff.mpr (Or.inr ⟨habsent, rfl⟩), fun node hnode => ?_⟩
      cases hnode
    · obtain ⟨nodes, hnodes⟩ := Tree.nodes_of_dir hstat isWanted
      refine ⟨nodes, hnodes, fun node hnode => ?_⟩
      obtain ⟨p', m', name, n, hstat', hn, hname, hnotDir, rfl⟩ :=
        (Tree.mem_nodes_iff hnodes).mp hnode
      rw [hstat] at hstat'
      cases hstat'
      rw [hdir]
      exact hhas name n hn hnotDir ((hwanted name.shown).mp hname)

theorem driverPartsClear_iff {driver : Driver} :
    DriverPartsClear host t driver c ↔ HasDriver host t driver c := by
  have hnodes : NodesClear host t driverNodeDir isDriverNode c ↔
      HasNodes host t driverNodeDir IsDriverName c :=
    nodesClear_iff (by decide) fun _ => isDriverNode_iff
  constructor
  · rintro ⟨hlibraries, hconfig, hn⟩
    exact ⟨hlibraries, Tree.isPresent_eq_true_iff.mp hconfig, hnodes.mp hn⟩
  · rintro ⟨hlibraries, hconfig, hn⟩
    exact ⟨hlibraries, Tree.isPresent_eq_true_iff.mpr hconfig, hnodes.mpr hn⟩

theorem isPresent_of_readText {path text : String} (h : t.readText (host.path path) = .ok text) :
    host.isPresent t path = .ok true := by
  rw [Tree.readText] at h
  cases hstat : t.stat (host.path path) with
  | error e =>
    rw [hstat] at h
    cases h
  | ok found => exact Tree.isPresent_eq_true_iff.mpr ⟨found.1, found.2, hstat⟩

/-- A driver that is looked for is found if it can be used. -/
theorem driverClear_iff : DriverClear host t (Driver.find? host t) c ↔
    (t.stat (host.path Driver.versionFile) = .error .notFound ∨
      ∃ text, t.readText (host.path Driver.versionFile) = .ok text ∧
        (Driver.ofVersion? text = none ∨ ∃ driver, Driver.ofVersion? text = some driver ∧
          (t.stat (host.path driver.libraries) = .error .notFound ∨
            (∃ q n, t.stat (host.path driver.libraries) = .ok (q, n)) ∧
              HasDriver host t driver c))) := by
  have habsent (path : String) :
      host.isPresent t path = .ok false ↔ t.stat (host.path path) = .error .notFound :=
    Tree.isPresent_eq_false_iff
  have hpresent (path : String) :
      host.isPresent t path = .ok true ↔ ∃ q n, t.stat (host.path path) = .ok (q, n) :=
    Tree.isPresent_eq_true_iff
  simp only [DriverClear, find?_eq, driverPartsClear_iff, ← habsent, ← hpresent]
  constructor
  · rintro (h | ⟨-, h⟩)
    · exact Or.inl h
    · refine Or.inr ?_
      cases htext : t.readText (host.path Driver.versionFile) with
      | error e =>
        rw [htext] at h
        rcases h with h | ⟨driver, h, -⟩ <;> cases h
      | ok text =>
        refine ⟨text, rfl, ?_⟩
        rw [htext] at h
        dsimp only at h
        cases hversion : Driver.ofVersion? text with
        | none => exact Or.inl rfl
        | some driver =>
          refine Or.inr ⟨driver, rfl, ?_⟩
          rw [hversion] at h
          dsimp only at h
          cases hlibraries : host.isPresent t driver.libraries with
          | error e =>
            rw [hlibraries] at h
            rcases h with h | ⟨driver', h, -⟩ <;> cases h
          | ok found =>
            rw [hlibraries] at h
            cases found with
            | false => exact Or.inl rfl
            | true =>
              rcases h with h | ⟨driver', h, hhas⟩
              · cases h
              · cases h
                exact Or.inr ⟨rfl, hhas⟩
  · rintro (h | ⟨text, htext, h⟩)
    · exact Or.inl h
    · refine Or.inr ⟨isPresent_of_readText htext, ?_⟩
      rw [htext]
      dsimp only
      rcases h with hversion | ⟨driver, hversion, h⟩
      · rw [hversion]
        exact Or.inl rfl
      · rw [hversion]
        dsimp only
        rcases h with hlibraries | ⟨hlibraries, hhas⟩
        · rw [hlibraries]
          exact Or.inl rfl
        · rw [hlibraries]
          exact Or.inr ⟨driver, rfl, hhas⟩

/-- Clear is what is compliant, links that are too long left out. -/
theorem clear_iff (h : t.IsProper) :
    Clear host t (Driver.find? host t) c ↔ Compliant host t c ∧ LinkFits host t c := by
  have hrenderNodes : RenderNodesClear host t c ↔
      host.confined = true ∨ HasNodes host t renderNodeDir IsRenderName c :=
    or_congr Iff.rfl (nodesClear_iff (by decide) fun _ => isRenderNode_iff)
  constructor
  · rintro ⟨haccess, hresources, hnodes, hdriver⟩
    obtain ⟨hdirectory, hfits⟩ := (accessClear_iff h).mp haccess
    exact ⟨⟨hdirectory, resourcesClear_iff.mp hresources, hrenderNodes.mp hnodes,
      driverClear_iff.mp hdriver⟩, hfits⟩
  · rintro ⟨⟨hdirectory, hdevices, hnodes, hdriver⟩, hfits⟩
    exact ⟨(accessClear_iff h).mpr ⟨hdirectory, hfits⟩, resourcesClear_iff.mpr hdevices,
      hrenderNodes.mpr hnodes, driverClear_iff.mpr hdriver⟩

end

/-! ### Checks -/

theorem isTarget_iff {c : Container} : c.isTarget = true ↔
    c.config.contains Container.architectureTag = true ∧
      c.config.contains Container.frameworkTag = true := by
  unfold Container.isTarget Container.target? Dict.contains
  cases c.config.get? Container.architectureTag <;>
    cases c.config.get? Container.frameworkTag <;> simp

/-- The worlds that a check of a world may come by, if no driver is remembered. -/
theorem alike_of_found (host : HostView) (seeker : String) (w : World Store) :
    Alike host seeker w.service w.tree (Driver.find? host w.tree) fun w' =>
      w'.service = w.service ∧ w'.tree = w.tree ∧
        knownDriver host seeker w' = Driver.find? host w.tree where
  service := fun _ h => h.1
  tree := fun _ h => h.2.1
  knows := fun _ h => h.2.2
  remembering := by
    intro w' driver c hw' _ _ hfound
    obtain ⟨hservice, htree, -⟩ := hw'
    have hself : (remembering w' seeker driver).drivers.get? seeker = some driver :=
      Dict.get?_insert_self ..
    refine ⟨hservice, htree, ?_⟩
    rw [knownDriver, hself, hfound]

/-- A check that has to look for the driver passes if and only if every container
    that carries both tags is compliant, and the link that its directory may be is
    not too long. -/
theorem check_passes_iff (ctx : Context) (seeker : String) (w : World Store)
    (hreachable : w.service.unreachable = false) (hfresh : w.drivers.get? seeker = none)
    (hproper : w.tree.IsProper) :
    (∃ w', (checkAll (standard seeker) ctx).run w = .ok () w') ↔
      ∀ name c, w.stored? name = some c →
        c.config.contains Container.architectureTag = true →
        c.config.contains Container.frameworkTag = true →
        Compliant ctx.host w.tree c ∧ LinkFits ctx.host w.tree c := by
  have hknows : knownDriver ctx.host seeker w = Driver.find? ctx.host w.tree := by
    rw [knownDriver, hfresh]
  have hdecides := decides_checkAll (alike_of_found ctx.host seeker w) hreachable
  rw [(hdecides w ⟨rfl, rfl, hknows⟩).1]
  simp only [clear_iff hproper, mem_targetsOf_iff, isTarget_iff, World.stored?]
  constructor
  · intro h name c hc harchitecture hframework
    exact h c ⟨⟨name, hc⟩, harchitecture, hframework⟩
  · rintro h c ⟨⟨name, hc⟩, harchitecture, hframework⟩
    exact h name c hc harchitecture hframework

/-- A target on a host without any devices. -/
def openTarget : World Store where
  service := .ofContainers [plainTarget "c" .empty]
  tree := .laidOut [.dir "/var/lib/lxd/containers/c" 0o755]

theorem check_passes_iff_openTarget :
    let w := openTarget
    w.service.unreachable = false ∧ w.drivers.get? "s" = none ∧ w.tree.IsProper ∧
      succeeds ((checkAll (standard "s") {}).run w) = true ∧
      ((∃ w', (checkAll (standard "s") {}).run w = .ok () w') ↔
        ∀ name c, w.stored? name = some c →
          c.config.contains Container.architectureTag = true →
          c.config.contains Container.frameworkTag = true →
          Compliant {} w.tree c ∧ LinkFits {} w.tree c) := by
  have hproper : openTarget.tree.IsProper := by decide +kernel
  have hpasses : succeeds ((checkAll (standard "s") {}).run openTarget) = true := by
    decide +kernel
  exact ⟨rfl, rfl, hproper, hpasses, check_passes_iff {} "s" openTarget rfl rfl hproper⟩

/-! ### A link that is too long -/

/-- The longest name of one letter. -/
def longName : RawText := ⟨List.replicate Tree.nameLimit 0x64⟩

/-- A place that is too deep to have a path. -/
def longPlace : Place := List.replicate 17 longName

/-- The path that the directory of a container is linked to, by way of another link. -/
def longTarget : RawText := Place.path ("h" :: longPlace.drop 8)

/-- A target whose directory is a link to a directory with a path that is too long.
    Each of the two links on the way is short enough. -/
def longLink : World Store where
  service := .ofContainers [plainTarget "c" .empty]
  tree := .laidOut [.dir longPlace.path 0o755, .link "/h" (Place.path (longPlace.take 8)),
    .link "/var/lib/lxd/containers/c" longTarget]

theorem looks_longLink :
    let t := longLink.tree
    let path : RawText := HostView.path {} (HostView.dirOf {} "c")
    t.IsProper ∧
      t.linkStat path = .ok (["var", "lib", "lxd", "containers", "c"], .link longTarget) ∧
      t.stat path = .ok (longPlace, .dir 0o755) ∧ Tree.pathLimit < longPlace.path.byteSize ∧
      t.stat (HostView.path {} renderNodeDir) = .error .notFound ∧
      t.stat (HostView.path {} Driver.versionFile) = .error .notFound := by
  decide +kernel

/-- A target may be compliant and a check still fail, if the directory of the
    target is a link to one whose path is too long: the check wants to spell the
    path. -/
theorem compliant_check_failing :
    let w := longLink
    w.service.unreachable = false ∧ w.drivers.get? "s" = none ∧ w.tree.IsProper ∧
      (∀ name c, w.stored? name = some c → Compliant {} w.tree c) ∧
      ¬∃ w', (checkAll (standard "s") {}).run w = .ok () w' := by
  obtain ⟨hproper, hlink, hdirectory, hlong, hrender, hdriver⟩ := looks_longLink
  have htargets : targetsOf longLink.service = [plainTarget "c" .empty] := rfl
  refine ⟨rfl, rfl, hproper, fun name c hc => ?_, fun hcheck => ?_⟩
  · have hget : longLink.stored? name =
        if name = "c" then some (plainTarget "c" .empty) else none := Dict.get?_insert ..
    rw [hget] at hc
    split at hc
    · cases hc
      exact ⟨⟨_, _, hdirectory, rfl⟩, fun _ _ _ hd => (nomatch hd), Or.inr (Or.inl hrender),
        Or.inl hdriver⟩
    · cases hc
  · have hdecides : Decides _ (checkAll (standard "s") {}) _ :=
      decides_checkAll (alike_of_found {} "s" longLink) rfl
    have hclear := (hdecides longLink ⟨rfl, rfl, rfl⟩).1.mp hcheck (plainTarget "c" .empty)
      (by rw [htargets]; exact List.mem_cons_self)
    -- to resolve the link, its path would have to be spelled out
    obtain ⟨-, hfits⟩ := (accessClear_iff hproper).mp hclear.access
    have hle := Tree.byteSize_path_le_of_lookupsFit (hfits _ _ hlink) hdirectory
    exact absurd hlong (Nat.not_lt.mpr hle)

end Repair

end BuildTargets
