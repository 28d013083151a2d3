/-
  BuildTargets/Proofs/Repair/Additions.lean
  =========================================
  **The devices that a fix adds.**

  The repairs of the render nodes and of the graphics driver ask for devices: a
  node that a listing shows, or the mount of the libraries of the driver
  (`AsksFor`).  After a fix that succeeds, the repair of resources finds all of
  them in order (`added_devices_present`).

  This has limits, because the repairs do not look as closely.  A listing shows
  a link as what it is, and not whether it leads anywhere; and the libraries of
  a driver that is remembered are not looked for again.
-/
import BuildTargets.Proofs.Repair.Edits
import BuildTargets.Proofs.Repair.Progress

namespace BuildTargets

namespace World

/-- The libraries of a driver that is remembered are those of its version. -/
def Recognises (w : World Store) : Prop := ∀ seeker driver,
  w.drivers.get? seeker = some driver → driver.libraries = Driver.librariesOf driver.version

end World

namespace Repair

variable {ctx : Context} {mode : Mode} {c : Container} {w w' w'' : World Store} {seeker : String}

/-! ### What is asked for -/

/-- A class of devices, under the names that they are given. -/
abbrev Wish : Type := String → Device → Prop

/-- The devices that have been asked for from `w` to `w'` are of a class. -/
def Adds (P : Wish) (w w' : World Store) : Prop :=
  ∃ ds, w'.journal = w.journal ++ ds ∧
    ∀ n k device, .asked (.addDevice n k device) ∈ ds → P k device

theorem Adds.refl (P : Wish) (w : World Store) : Adds P w w := ⟨[], by simp⟩

/-- From `w` to `w'` only devices of a class have been asked for, and no driver
    has been remembered. -/
structure AsksFor (P : Wish) (w w' : World Store) : Prop where
  deeds : Adds P w w'
  drivers : w'.drivers = w.drivers

namespace AsksFor

variable {P Q : Wish}

theorem refl (P : Wish) (w : World Store) : AsksFor P w w := ⟨.refl P w, rfl⟩

theorem trans (h : AsksFor P w w') (h' : AsksFor P w' w'') : AsksFor P w w'' := by
  obtain ⟨ds, hj, hds⟩ := h.deeds
  obtain ⟨ds', hj', hds'⟩ := h'.deeds
  refine ⟨⟨ds ++ ds', by rw [hj', hj, List.append_assoc], fun n k device hmem => ?_⟩,
    h'.drivers.trans h.drivers⟩
  rcases List.mem_append.mp hmem with hmem | hmem
  · exact hds n k device hmem
  · exact hds' n k device hmem

theorem mono (h : AsksFor P w w') (hPQ : ∀ k device, P k device → Q k device) :
    AsksFor Q w w' := by
  obtain ⟨ds, hj, hds⟩ := h.deeds
  exact ⟨⟨ds, hj, fun n k device hmem => hPQ k device (hds n k device hmem)⟩, h.drivers⟩

theorem ok {x : Action (World Store) Unit} (h : Keeps (AsksFor P) x)
    (hrun : x.run w = .ok () w') : AsksFor P w w' := by
  have hasks := h w
  rw [hrun] at hasks
  exact hasks

theorem bind {α β : Type} {x : Action (World Store) α} {f : α → Action (World Store) β}
    (hx : Keeps (AsksFor P) x) (hf : ∀ a, Keeps (AsksFor P) (f a)) :
    Keeps (AsksFor P) (x >>= f) :=
  Keeps.bind (R := AsksFor P) (fun _ _ _ h h' => h.trans h') hx hf

theorem forM {α : Type} {f : α → Action (World Store) Unit} {l : List α}
    (hf : ∀ a ∈ l, Keeps (AsksFor P) (f a)) : Keeps (AsksFor P) (l.forM f) :=
  Keeps.forM (R := AsksFor P) (refl P) (fun _ _ _ h h' => h.trans h') hf

theorem meet {d : Drift} {remedy : Action (World Store) Unit} (h : Keeps (AsksFor P) remedy) :
    Keeps (AsksFor P) (meet mode d remedy) := by
  cases mode with
  | check => exact fun w => refl P w
  | fix => exact h

theorem change (change : HostChange) (explain : IoError → Failure) :
    Keeps (AsksFor P) (World.change change explain) := by
  intro w
  rw [World.run_change]
  split
  · exact ⟨⟨[.changed change], rfl, by simp⟩, rfl⟩
  · exact refl P w

theorem perform {request : Request}
    (hP : ∀ n k device, request = .addDevice n k device → P k device) :
    Keeps (AsksFor P) (World.perform ctx request) := by
  intro w
  rcases w.service.refused_or_accepted request with hrefused | ⟨hu, hc⟩
  · obtain ⟨e, -, hrun⟩ := World.run_perform_of_refused ctx _ hrefused
    rw [hrun]
    exact refl P w
  · have hasked (s : Store) : AsksFor P w { w.asked request with service := s } := by
      refine ⟨⟨[.asked request], rfl, fun n k device hmem => ?_⟩, rfl⟩
      rw [List.mem_singleton, Deed.asked.injEq] at hmem
      exact hP n k device hmem.symm
    rw [World.run_perform_of_accepted hu hc]
    obtain ⟨result, s⟩ := (w.service.logged request).answer ctx.patience request
    cases result with
    | ok _ => exact hasked s
    | error e => exact hasked s

theorem add {n k : String} {device : Device} (h : P k device) :
    Keeps (AsksFor P) (World.perform ctx (.addDevice n k device)) := by
  refine perform fun n' k' device' heq => ?_
  cases heq
  exact h

theorem remove (n k : String) : Keeps (AsksFor P) (World.perform ctx (.removeDevice n k)) :=
  perform fun _ _ _ heq => nomatch heq

end AsksFor

/-! ### The parts of the repairs -/

def MountsLibraries (driver : Driver) : Wish := fun k device =>
  k = libraryDevice ∧ device = libraryMountOf driver

theorem asksFor_keepAccess {P : Wish} : Keeps (AsksFor P) (keepAccess ctx mode c) := by
  intro w
  rw [run_keepAccess]
  split
  · split
    · exact .refl P w
    · exact AsksFor.meet (AsksFor.change _ _) w
  · exact .refl P w

theorem asksFor_keepResource {P : Wish} (name : String) (device : Device) :
    Keeps (AsksFor P) (keepResource ctx mode c name device) := by
  intro w
  rw [run_keepResource]
  split
  · exact .refl P w
  · split
    · exact .refl P w
    · exact AsksFor.meet (AsksFor.remove c.name name) w
    · exact .refl P w

theorem asksFor_passNodes (reason : String) (nodes : List String) :
    Keeps (AsksFor (PassesOneOf nodes)) (nodes.forM (passNode ctx mode c reason)) := by
  refine AsksFor.forM fun node hnode => ?_
  unfold passNode
  split
  · exact fun w => .refl _ w
  · exact AsksFor.meet (AsksFor.add ⟨hnode, rfl⟩)

theorem asksFor_keepLibraries (driver : Driver) :
    Keeps (AsksFor (MountsLibraries driver)) (keepLibraries ctx mode c driver) := by
  have hadd : Keeps (AsksFor (MountsLibraries driver))
      (World.perform ctx (.addDevice c.name libraryDevice (libraryMountOf driver))) :=
    AsksFor.add ⟨rfl, rfl⟩
  unfold keepLibraries
  split
  · split
    · exact fun w => .refl _ w
    · exact AsksFor.meet (AsksFor.bind (AsksFor.remove c.name libraryDevice) fun _ => hadd)
  · exact AsksFor.meet hadd

theorem asksFor_keepLoaderConfig {P : Wish} : Keeps (AsksFor P) (keepLoaderConfig ctx mode c) := by
  intro w
  rw [run_keepLoaderConfig]
  split
  · exact .refl P w
  · unfold writeLoaderConfig
    exact AsksFor.meet (AsksFor.bind (AsksFor.change _ _) fun _ => AsksFor.change _ _) w
  · exact .refl P w

/-- The nodes that a listing shows, each with the device that passes it. -/
def PassesListed (host : HostView) (t : Tree) (dir : String) (isWanted : String → Bool) : Wish :=
  fun k device => ∃ nodes, host.nodes t dir isWanted = .ok nodes ∧ PassesOneOf nodes k device

theorem asksFor_keepRenderNodes (w : World Store) :
    AsksFor (PassesListed ctx.host w.tree renderNodeDir isRenderNode) w
      (stateOf ((keepRenderNodes ctx mode c).run w)) := by
  rw [run_keepRenderNodes]
  split
  · exact .refl _ w
  · cases hnodes : ctx.host.nodes w.tree renderNodeDir isRenderNode with
    | error e => exact .refl _ w
    | ok nodes => exact (asksFor_passNodes _ nodes w).mono fun k device h => ⟨nodes, hnodes, h⟩

theorem asksFor_keepDriverNodes (w : World Store) :
    AsksFor (PassesListed ctx.host w.tree driverNodeDir isDriverNode) w
      (stateOf ((keepDriverNodes ctx mode c).run w)) := by
  rw [run_keepDriverNodes]
  cases hnodes : ctx.host.nodes w.tree driverNodeDir isDriverNode with
  | error e => exact .refl _ w
  | ok nodes => exact (asksFor_passNodes _ nodes w).mono fun k device h => ⟨nodes, hnodes, h⟩

/-! ### Remembered drivers -/

theorem libraries_of_ofVersion? {text : String} {driver : Driver}
    (h : Driver.ofVersion? text = some driver) :
    driver.libraries = Driver.librariesOf driver.version := by
  unfold Driver.ofVersion? at h
  dsimp only at h
  split at h
  · cases h
  · rw [← Option.some.inj h]

theorem recognised_of_knownDriver {host : HostView} (hw : w.Recognises) {driver : Driver}
    (h : knownDriver host seeker w = .ok (some driver)) :
    driver.libraries = Driver.librariesOf driver.version := by
  unfold knownDriver at h
  split at h
  · next hd =>
    cases h
    exact hw seeker driver hd
  · rw [find?_eq] at h
    split at h
    · split at h
      · next hversion =>
        split at h
        · cases h
          exact libraries_of_ofVersion? hversion
        · cases h
        · cases h
      · cases h
    · cases h

theorem recognises_remembering {host : HostView} (hw : w.Recognises) {driver : Driver}
    (h : knownDriver host seeker w = .ok (some driver)) :
    (remembering w seeker driver).Recognises := by
  intro seeker' driver' hd
  have hinsert : (remembering w seeker driver).drivers.get? seeker' =
      if seeker' = seeker then some driver else w.drivers.get? seeker' := Dict.get?_insert ..
  rw [hinsert] at hd
  split at hd
  · cases hd
    exact recognised_of_knownDriver hw h
  · exact hw seeker' driver' hd

theorem AsksFor.recognises {P : Wish} (h : AsksFor P w w') (hw : w.Recognises) :
    w'.Recognises := by
  intro seeker driver hd
  rw [h.drivers] at hd
  exact hw seeker driver hd

/-- No repair makes a world remember a driver with other libraries. -/
theorem recognises_run {r : Repair Store} (hr : r ∈ standard seeker) (hw : w.Recognises) :
    (stateOf ((r.run ctx mode c).run w)).Recognises := by
  simp only [standard, List.mem_cons, List.not_mem_nil, or_false] at hr
  rcases hr with rfl | rfl | rfl | rfl
  · exact (asksFor_keepAccess (P := fun _ _ => True) w).recognises hw
  · have hall : Keeps (AsksFor fun _ _ => True) (keepResources ctx mode c) :=
      AsksFor.forM fun e _ => asksFor_keepResource e.1 e.2
    exact (hall w).recognises hw
  · exact (asksFor_keepRenderNodes w).recognises hw
  · have hparts (driver : Driver) : Keeps (AsksFor fun _ _ => True)
        (keepDriverParts ctx mode c driver) := by
      refine AsksFor.bind (fun w => (asksFor_keepLibraries driver w).mono fun _ _ _ => trivial)
        fun _ => AsksFor.bind asksFor_keepLoaderConfig fun _ w => ?_
      exact (asksFor_keepDriverNodes w).mono fun _ _ _ => trivial
    have hrun := run_keepDriver ctx mode c w seeker
    change (stateOf ((keepDriver seeker ctx mode c).run w)).Recognises
    rw [hrun]
    split
    · split
      · next driver hknown => exact (hparts driver _).recognises (recognises_remembering hw hknown)
      · exact hw
      · exact hw
    · exact hw
    · exact hw

/-! ### What is added is there -/

/-- A logical path that is there as it is written, if it can be one in which something
    has been replaced, that is short enough for the host and, if it names a link, leads
    somewhere. -/
structure IsLive (host : HostView) (t : Tree) (path : String) : Prop where
  whole : Text.replacement ∈ path.toList → ∃ p n, t.linkStat (host.path path) = .ok (p, n)
  fits : (host.path path).utf8ByteSize ≤ Tree.pathLimit
  link : ∀ p target, t.linkStat (host.path path) = .ok (p, .link target) →
    host.isPresent t path = .ok true

/-- A directory that is written the way the directories of nodes are. -/
structure IsNodeDir (dir : String) : Prop where
  absolute : Path.isAbsolute dir = true
  last : ∃ name, Path.lastField dir = some name ∧ Path.isFiller name = false
  noSlash : HostView.withoutTrailingSlashes dir = dir

theorem isNodeDir_renderNodeDir : IsNodeDir renderNodeDir :=
  ⟨by decide, ⟨"dri".toList, by decide, by decide⟩, by decide⟩

theorem isNodeDir_driverNodeDir : IsNodeDir driverNodeDir :=
  ⟨by decide, ⟨"dev".toList, by decide, by decide⟩, by decide⟩

variable {host : HostView} {t t' : Tree}

/-- Whatever has a name that nothing was replaced in is there under it. -/
theorem linkStat_of_listed {dir node : String} {isWanted : String → Bool} {nodes : List String}
    (hproper : t.IsProper) (hdir : IsNodeDir dir)
    (hnodes : host.nodes t dir isWanted = .ok nodes) (hnode : node ∈ nodes)
    (hwhole : Text.replacement ∉ node.toList)
    (hfits : (host.path node).utf8ByteSize ≤ Tree.pathLimit) :
    ∃ p n, t.linkStat (host.path node) = .ok (p, n) := by
  obtain ⟨p, m, name, n, hstat, hn, -, hnotDir, rfl⟩ := (Tree.mem_nodes_iff hnodes).mp hnode
  obtain ⟨last, hlast, hfiller⟩ := hdir.last
  -- nothing was replaced in the name, so what is listed leads back to it
  obtain ⟨name, rfl⟩ : ∃ s, name = RawText.ofText s := by
    refine ⟨name.shown, (RawText.ofText_shown fun hmem => hwhole ?_).symm⟩
    rw [String.toList_append]
    exact List.mem_append_right _ hmem
  have hname := hproper.name hn
  have hpath : host.path (HostView.withoutTrailingSlashes dir ++ "/" ++ name) =
      host.path dir ++ "/" ++ name := by
    rw [hdir.noSlash]
    exact host.path_entry hdir.absolute hlast hfiller
      (RawText.slash_mem_ofText_iff.not.mp hname.no_slash) hname.not_filler
  rw [RawText.shown_ofText, hpath, ← RawText.byteSize_ofText, RawText.ofText_entry] at hfits
  rw [RawText.shown_ofText, hpath, RawText.ofText_entry]
  cases n with
  | dir m' => cases hnotDir
  | file m' content => exact Tree.linkStat_of_stat (hproper.stat_entry hstat hn hfits)
  | link target => exact ⟨_, _, hproper.linkStat_entry hstat hn hfits⟩

/-- The libraries of the driver that is remembered are still there. -/
def LibrariesKept (host : HostView) (seeker : String) (w : World Store) : Prop :=
  ∀ driver, w.drivers.get? seeker = some driver → host.isPresent w.tree driver.libraries = .ok true

/-- The devices that claim a path of the host, which is there: that of the
    libraries if `kept` holds, and any other if it is live. -/
def Backed (host : HostView) (t : Tree) (kept : Prop) : Wish := fun k device =>
  ∃ path, device.hostPath? = some path ∧
    ((if k = libraryDevice then kept else IsLive host t path) → host.isPresent t path = .ok true)

theorem backed_of_passesListed {m : Nat} {dir : String} {isWanted : String → Bool} {kept : Prop}
    (hproper : t.IsProper) (hg : t.Grows m t') (hdir : IsNodeDir dir) {rest : List Char}
    (hlist : dir.toList = '/' :: 'd' :: rest) {k : String} {device : Device}
    (h : PassesListed host t dir isWanted k device) : Backed host t' kept k device := by
  obtain ⟨nodes, hnodes, hk, rfl⟩ := h
  have hslash : '/' ∈ k.toList := by
    obtain ⟨p, m, name, n, -, -, -, -, rfl⟩ := (Tree.mem_nodes_iff hnodes).mp hk
    simp [Path.toList_slash]
  have hne : k ≠ libraryDevice := by
    rintro rfl
    revert hslash
    decide
  rw [← hdir.noSlash] at hlist
  refine ⟨k, hostPath?_passThrough_of_listed rest hlist hnodes hk, fun hlive => ?_⟩
  rw [if_neg hne] at hlive
  obtain ⟨p, n, hnamed⟩ : ∃ p n, t'.linkStat (host.path k) = .ok (p, n) := by
    by_cases hmem : Text.replacement ∈ k.toList
    · exact hlive.whole hmem
    · obtain ⟨p, n, hnamed⟩ := linkStat_of_listed hproper hdir hnodes hk hmem hlive.fits
      obtain ⟨n', hnamed', -⟩ := hg.linkStat hnamed
      exact ⟨p, n', hnamed'⟩
  by_cases hlink : ∃ target, n = .link target
  · obtain ⟨target, rfl⟩ := hlink
    exact hlive.link p target hnamed
  · refine Tree.isPresent_eq_true_iff.mpr ⟨p, n, Tree.stat_of_linkStat hnamed fun target heq => ?_⟩
    exact hlink ⟨target, heq⟩

theorem librariesOf_ne_empty (version : String) : Driver.librariesOf version ≠ "" := by
  intro h
  have hempty : "/usr/lib/nvidia-".toList ++ version.toList = [] := by
    rw [← String.toList_append]
    exact congrArg String.toList h
  exact absurd (List.append_eq_nil_iff.mp hempty).1 (by decide)

theorem backed_of_mountsLibraries {driver : Driver} {kept : Prop}
    (hlibraries : driver.libraries = Driver.librariesOf driver.version)
    (hpresent : kept → host.isPresent t driver.libraries = .ok true) {k : String} {device : Device}
    (h : MountsLibraries driver k device) : Backed host t kept k device := by
  obtain ⟨rfl, rfl⟩ := h
  have hne : driver.libraries ≠ "" := by
    rw [hlibraries]
    exact librariesOf_ne_empty driver.version
  refine ⟨driver.libraries, ?_, fun hkept => hpresent ?_⟩
  · rw [hostPath?_libraryMountOf]
    simp [hne]
  · rw [if_pos rfl] at hkept
    exact hkept

/-! ### Fixes that add devices -/

theorem backed_of_keepRenderNodes {kept : Prop} (hproper : w.tree.IsProper)
    (hrun : (keepRenderNodes ctx .fix c).run w = .ok () w') :
    Adds (Backed ctx.host w'.tree kept) w w' := by
  have hon : w.Onward w' := goesOnward_keepRenderNodes.ok hrun
  have hasks : AsksFor (PassesListed ctx.host w.tree renderNodeDir isRenderNode) w w' := by
    have h : AsksFor (PassesListed ctx.host w.tree renderNodeDir isRenderNode) w
        (stateOf ((keepRenderNodes ctx .fix c).run w)) := asksFor_keepRenderNodes w
    rw [hrun] at h
    exact h
  exact (hasks.mono fun k device h =>
    backed_of_passesListed hproper hon.tree isNodeDir_renderNodeDir rfl h).deeds

theorem isProper_of_keepLoaderConfig (hproper : w.tree.IsProper)
    (hrun : (keepLoaderConfig ctx .fix c).run w = .ok () w') : w'.tree.IsProper := by
  rcases (reshapes_of_keepLoaderConfig hrun).tree with ⟨heq, -⟩ | ⟨q, hgap, heq⟩
  · rw [heq]
    exact hproper
  · rw [heq]
    exact hproper.put_gap hgap rfl

theorem backed_of_keepDriverParts {kept : Prop} {driver : Driver} (hproper : w.tree.IsProper)
    (hlibraries : driver.libraries = Driver.librariesOf driver.version)
    (hpresent : kept → ctx.host.isPresent w.tree driver.libraries = .ok true)
    (hc : w.stored? c.name = some c)
    (hrun : (keepDriverParts ctx .fix c driver).run w = .ok () w') :
    Adds (Backed ctx.host w'.tree kept) w w' := by
  have hon : w.Onward w' := (goesOnward_keepDriverParts driver).ok hrun
  obtain ⟨_, w₁, hrun₁, hrun'⟩ := run_bind_ok.mp hrun
  obtain ⟨_, w₂, hrun₂, hrun₃⟩ := run_bind_ok.mp hrun'
  have hasks₁ : AsksFor (Backed ctx.host w'.tree kept) w w₁ :=
    (AsksFor.ok (asksFor_keepLibraries driver) hrun₁).mono fun k device h =>
      backed_of_mountsLibraries hlibraries (fun hkept => hon.tree.isPresent (hpresent hkept)) h
  have hasks₂ : AsksFor (Backed ctx.host w'.tree kept) w₁ w₂ :=
    AsksFor.ok asksFor_keepLoaderConfig hrun₂
  -- the nodes are listed once the configuration has been created
  have hproper₂ : w₂.tree.IsProper := by
    refine isProper_of_keepLoaderConfig ?_ hrun₂
    rw [(edits_of_keepLibraries hc hrun₁).tree]
    exact hproper
  have hon₃ : w₂.Onward w' := goesOnward_keepDriverNodes.ok hrun₃
  have hasks₃ : AsksFor (Backed ctx.host w'.tree kept) w₂ w' := by
    have h : AsksFor (PassesListed ctx.host w₂.tree driverNodeDir isDriverNode) w₂
        (stateOf ((keepDriverNodes ctx .fix c).run w₂)) := asksFor_keepDriverNodes w₂
    rw [hrun₃] at h
    exact h.mono fun k device h =>
      backed_of_passesListed hproper₂ hon₃.tree isNodeDir_driverNodeDir rfl h
  exact ((hasks₁.trans hasks₂).trans hasks₃).deeds

theorem backed_of_keepDriver (hproper : w.tree.IsProper) (hw : w.Recognises)
    (hc : w.stored? c.name = some c) (hrun : (keepDriver seeker ctx .fix c).run w = .ok () w') :
    Adds (Backed ctx.host w'.tree (LibrariesKept ctx.host seeker w)) w w' := by
  rw [run_keepDriver] at hrun
  split at hrun
  · cases hknown : knownDriver ctx.host seeker w with
    | error e =>
      rw [hknown] at hrun
      cases hrun
    | ok found =>
      rw [hknown] at hrun
      cases found with
      | none =>
        cases hrun
        exact .refl _ w
      | some driver =>
        have hpresent (hkept : LibrariesKept ctx.host seeker w) :
            ctx.host.isPresent w.tree driver.libraries = .ok true := by
          unfold knownDriver at hknown
          split at hknown
          · next hd =>
            cases hknown
            exact hkept driver hd
          · exact libraries_of_find? hknown
        exact backed_of_keepDriverParts (w := remembering w seeker driver) hproper
          (recognised_of_knownDriver hw hknown) hpresent hc hrun
  · cases hrun
    exact .refl _ w
  · cases hrun

/-- The repair of resources has nothing to do for a device whose path is
    there. -/
theorem run_keepResource_of_present {name path : String} {device : Device}
    (hpath : device.hostPath? = some path) (hpresent : ctx.host.isPresent w.tree path = .ok true) :
    (keepResource ctx mode c name device).run w = .ok () w := by
  rw [run_keepResource, hpath]
  dsimp only
  rw [hpresent]

/-- What a fix of the render nodes or of the graphics driver of a container has
    added is there once the fix has succeeded, and the repair of resources leaves
    it alone in both modes: a node, if it is live, and the mount of the libraries,
    if those of a driver that was remembered before are still there. -/
theorem added_devices_present (ctx : Context) (seeker : String) (r : Repair Store)
    (hr : r = renderNodes ∨ r = graphicsDriver seeker) (name : String) (w w' : World Store)
    (hkeyed : w.service.IsKeyed) (hproper : w.tree.IsProper) (hw : w.Recognises)
    (hrun : (r.onContainer ctx .fix name).run w = .ok () w') :
    ∃ ds, w'.journal = w.journal ++ ds ∧ ∀ n k device, .asked (.addDevice n k device) ∈ ds →
      ∃ path, device.hostPath? = some path ∧
        ((if k = libraryDevice then LibrariesKept ctx.host seeker w
            else IsLive ctx.host w'.tree path) →
          ctx.host.isPresent w'.tree path = .ok true ∧
          ∀ mode c (w'' : World Store), w''.tree = w'.tree →
            (keepResource ctx mode c k device).run w'' = .ok () w'') := by
  have hbacked : Adds (Backed ctx.host w'.tree (LibrariesKept ctx.host seeker w)) w w' := by
    rw [run_onContainer] at hrun
    split at hrun
    · cases hrun
    · split at hrun
      · next c hc =>
        have hcname : c.name = name := hkeyed name c hc
        rw [← hcname] at hc
        rcases hr with rfl | rfl
        · exact backed_of_keepRenderNodes hproper hrun
        · exact backed_of_keepDriver hproper hw hc hrun
      · cases hrun
  obtain ⟨ds, hjournal, hds⟩ := hbacked
  refine ⟨ds, hjournal, fun n k device hmem => ?_⟩
  obtain ⟨path, hpath, hpresent⟩ := hds n k device hmem
  refine ⟨path, hpath, fun htrust => ⟨hpresent htrust, fun mode c w'' htree => ?_⟩⟩
  refine run_keepResource_of_present hpath ?_
  rw [htree]
  exact hpresent htrust

/-- A target on a host with one render node. -/
def withCard (card : Tree.Entry) : World Store where
  service := .ofContainers [plainTarget "c" .empty]
  tree := .laidOut [card]

theorem added_devices_present_withCard :
    let r : Repair Store := renderNodes
    let w := withCard (.file "/dev/dri/card0" 0o660 [])
    let w' := stateOf ((r.onContainer {} .fix "c").run w)
    w.service.IsKeyed ∧ w.tree.IsProper ∧ w.Recognises ∧
      (r.onContainer {} .fix "c").run w = .ok () w' ∧
      ∃ ds, w'.journal = w.journal ++ ds ∧ ∀ n k device, .asked (.addDevice n k device) ∈ ds →
        ∃ path, device.hostPath? = some path ∧
          ((if k = libraryDevice then LibrariesKept {} "s" w else IsLive {} w'.tree path) →
            HostView.isPresent {} w'.tree path = .ok true ∧
            ∀ mode c (w'' : World Store), w''.tree = w'.tree →
              (keepResource {} mode c k device).run w'' = .ok () w'') := by
  intro r w w'
  have hkeyed : w.service.IsKeyed := Store.isKeyed_ofContainers _
  have hproper : (withCard (.file "/dev/dri/card0" 0o660 [])).tree.IsProper := by decide +kernel
  have hw : w.Recognises := fun _ _ hd => nomatch hd
  have hfixed : succeeds (((renderNodes : Repair Store).onContainer {} .fix "c").run
      (withCard (.file "/dev/dri/card0" 0o660 []))) = true := by decide +kernel
  have hrun := eq_ok_of_succeeds hfixed
  exact ⟨hkeyed, hproper, hw, hrun,
    added_devices_present {} "s" r (Or.inl rfl) "c" w w' hkeyed hproper hw hrun⟩

/-! ### A root with a long path -/

def slashes (n : Nat) : String := String.ofList (List.replicate (n + 1) '/')

theorem utf8ByteSize_slashes (n : Nat) : (slashes n).utf8ByteSize = n + 1 := by
  induction n with
  | zero => rfl
  | succ n ih =>
    have hcons : slashes (n + 1) = String.singleton '/' ++ slashes n := by
      rw [← String.toList_inj, String.toList_append, slashes, slashes, String.toList_ofList,
        String.toList_ofList, String.toList_singleton, List.singleton_append,
        List.replicate_succ]
    rw [hcons, String.utf8ByteSize_append, ih]
    exact Nat.add_comm 1 (n + 1)

theorem split_slashes (n : Nat) (cs : List Char) :
    Text.split '/' (List.replicate n '/' ++ cs) = List.replicate n [] ++ Text.split '/' cs := by
  induction n with
  | zero => rfl
  | succ n ih =>
    rw [List.replicate_succ, List.cons_append, Text.split_cons_sep, ih, List.replicate_succ,
      List.cons_append]

/-- However many slashes there are in front, a path goes the same way. -/
theorem ofPath_slashes (n : Nat) {path : String} (hpath : path ≠ "") :
    Route.ofPath (slashes n ++ path) = Route.ofPath ("/" ++ path) := by
  have hne : path.toList ≠ [] := by simpa using hpath
  have hslash : (slashes n ++ path).toList = List.replicate (n + 1) '/' ++ path.toList := by
    rw [String.toList_append, slashes, String.toList_ofList]
  have hone : ("/" ++ path).toList = List.replicate 1 '/' ++ path.toList :=
    String.toList_append
  have hnames (k : Nat) : ((((List.replicate k [] ++ Text.split '/' path.toList).map
      String.ofList).filter (· ≠ "")).map RawText.ofText) =
      (((Text.split '/' path.toList).map String.ofList).filter (· ≠ "")).map RawText.ofText := by
    rw [List.map_append, List.filter_append, List.map_replicate, List.filter_replicate]
    rfl
  rw [Path.ofPath_ofText, Path.ofPath_ofText, Path.isAbsolute, Path.isAbsolute, Path.names,
    Path.names, hslash, hone, split_slashes, split_slashes, hnames, hnames, List.getLast?_append,
    List.getLast?_append, List.getLast?_eq_some_getLast hne]
  rfl

theorem no_nul_slashes (n : Nat) {path : String} (h : '\x00' ∉ path.toList) :
    '\x00' ∉ (slashes n ++ path).toList := by
  rw [String.toList_append, slashes, String.toList_ofList, List.mem_append]
  rintro (hnul | hnul)
  · exact absurd (List.eq_of_mem_replicate hnul) (by decide)
  · exact h hnul

theorem isPath_slashes {n : Nat} {path : String} (h : Tree.IsPath path)
    (hfits : n + 1 + path.utf8ByteSize ≤ Tree.pathLimit) : Tree.IsPath (slashes n ++ path) := by
  obtain ⟨hnul, hempty, -⟩ := Tree.isPath_ofText_iff.mp h
  refine Tree.isPath_ofText_iff.mpr ⟨no_nul_slashes n hnul, by simp [hempty], ?_⟩
  rw [String.utf8ByteSize_append, utf8ByteSize_slashes]
  exact hfits

/-- A host with a root that is written with many slashes. -/
def slashHost (n : Nat) : HostView where
  root := slashes n

theorem path_slashHost (n : Nat) {path leaf : String} (hbelow : Path.belowRoot path = leaf)
    (hleaf : Path.isAbsolute leaf = false) : (slashHost n).path path = slashes n ++ leaf := by
  have hlast : (slashes n).toList.getLast? = some '/' := by
    rw [slashes, String.toList_ofList, List.getLast?_replicate, if_neg (Nat.succ_ne_zero n)]
  rw [HostView.path, hbelow, Path.join, hleaf, slashHost, hlast]
  simp

theorem nodes_slashHost {n : Nat} (hn : n + 1 + 7 ≤ Tree.pathLimit) (t : Tree)
    (isWanted : String → Bool) : (slashHost n).nodes t renderNodeDir isWanted =
      HostView.nodes {} t renderNodeDir isWanted := by
  have hdeep : (slashHost n).path renderNodeDir = slashes n ++ "dev/dri" :=
    path_slashHost n (by decide) (by decide)
  have hplain : HostView.path {} renderNodeDir = "/" ++ "dev/dri" := by decide
  have hleaf : Tree.IsPath "dev/dri" := by
    constructor <;> decide +kernel
  have hpath : Tree.IsPath (slashes n ++ "dev/dri") := by
    have hsize : "dev/dri".utf8ByteSize = 7 := by decide
    refine isPath_slashes hleaf ?_
    rw [hsize]
    exact hn
  have hpath' : Tree.IsPath (RawText.ofText ("/" ++ "dev/dri")) := by
    constructor <;> decide +kernel
  have hlist : t.listDir (RawText.ofText (slashes n ++ "dev/dri")) =
      t.listDir (RawText.ofText ("/" ++ "dev/dri")) := by
    rw [Tree.listDir, Tree.stat, Tree.listDir, Tree.stat,
      Tree.walk_of_route hpath hpath' (ofPath_slashes n (by decide))]
  refine Tree.nodes_of_listDir ?_
  rw [hdeep, hplain]
  exact hlist

theorem keepRenderNodes_slashHost {n : Nat} (hn : n + 1 + 7 ≤ Tree.pathLimit) (w : World Store)
    (name : String) :
    ((renderNodes : Repair Store).onContainer { host := slashHost n } .fix name).run w =
      ((renderNodes : Repair Store).onContainer {} .fix name).run w := by
  have hpass (c : Container) : passNode { host := slashHost n } .fix c
      "container is missing device node " = passNode (β := Store) {} .fix c
      "container is missing device node " := rfl
  have hrun (c : Container) : (keepRenderNodes { host := slashHost n } .fix c).run w =
      (keepRenderNodes {} .fix c).run w := by
    rw [run_keepRenderNodes, run_keepRenderNodes, hpass]
    dsimp only
    rw [nodes_slashHost hn]
    rfl
  rw [run_onContainer, run_onContainer]
  split
  · rfl
  · split
    · next c _ => exact hrun c
    · rfl

theorem isPresent_slashHost {n : Nat} (hn : Tree.pathLimit < n + 1 + 13) (t : Tree) :
    (slashHost n).isPresent t "/dev/dri/card0" = .error .nameTooLong := by
  have hdeep : (slashHost n).path "/dev/dri/card0" = slashes n ++ "dev/dri/card0" :=
    path_slashHost n (by decide) (by decide)
  have hsize : "dev/dri/card0".utf8ByteSize = 13 := by decide
  have hlong : Tree.pathLimit < (RawText.ofText (slashes n ++ "dev/dri/card0")).byteSize := by
    rw [RawText.byteSize_ofText, String.utf8ByteSize_append, utf8ByteSize_slashes, hsize]
    exact hn
  have hnul : 0 ∉ (RawText.ofText (slashes n ++ "dev/dri/card0")).bytes :=
    RawText.nul_mem_ofText_iff.not.mpr (no_nul_slashes n (by decide))
  have hwalk : t.walk false (RawText.ofText (slashes n ++ "dev/dri/card0")) =
      .error .nameTooLong := by
    rw [Tree.walk, if_neg hnul, if_neg (by simp [RawText.bytes_ofText_eq_nil_iff]), if_pos hlong]
  rw [HostView.isPresent, hdeep, Tree.isPresent, Tree.stat, hwalk]
  rfl

/-! ### Devices that are not there -/

/-- A target on a host whose loaded driver is remembered, but has lost its
    libraries. -/
def withoutLibraries : World Store where
  service := .ofContainers [plainTarget "c" .empty]
  tree := .laidOut [.dir "/var/lib/lxd/containers/c/rootfs/etc/ld.so.conf.d" 0o755,
    .file Driver.versionFile 0o444 (Text.encode "384.111")]
  drivers := .ofList [("s", ⟨"384", Driver.librariesOf "384"⟩)]

/-- A fix that succeeds may add devices whose path is not there, and the repair
    of resources does not leave them alone: the node that is a link to nothing,
    the node whose name is not a text, the mount of libraries that are gone, and the
    node that cannot be named on the host. -/
theorem added_devices_absent :
    (let r : Repair Store := renderNodes
      let w := withCard (.link "/dev/dri/card0" "gone")
      let w' := stateOf ((r.onContainer {} .fix "c").run w)
      let device := Device.passThrough "/dev/dri/card0"
      (r.onContainer {} .fix "c").run w = .ok () w' ∧
        w'.journal = [.asked (.addDevice "c" "/dev/dri/card0" device)] ∧
        device.hostPath? = some "/dev/dri/card0" ∧
        HostView.isPresent {} w'.tree "/dev/dri/card0" = .ok false ∧
        succeeds (((resources : Repair Store).onContainer {} .check "c").run w') = false) ∧
    (let r : Repair Store := graphicsDriver "s"
      let w := nodesEndingIn [0xff]
      let w' := stateOf ((r.onContainer {} .fix "c").run w)
      let device := Device.passThrough "/dev/nvidia\ufffd"
      (r.onContainer {} .fix "c").run w = .ok () w' ∧
        .asked (.addDevice "c" "/dev/nvidia\ufffd" device) ∈ w'.journal ∧
        device.hostPath? = some "/dev/nvidia\ufffd" ∧
        HostView.isPresent {} w'.tree "/dev/nvidia\ufffd" = .ok false ∧
        succeeds (((resources : Repair Store).onContainer {} .check "c").run w') = false) ∧
    (let r : Repair Store := graphicsDriver "s"
      let w := withoutLibraries
      let w' := stateOf ((r.onContainer {} .fix "c").run w)
      let device := libraryMountOf ⟨"384", Driver.librariesOf "384"⟩
      (r.onContainer {} .fix "c").run w = .ok () w' ∧
        .asked (.addDevice "c" libraryDevice device) ∈ w'.journal ∧
        device.hostPath? = some (Driver.librariesOf "384") ∧
        HostView.isPresent {} w'.tree (Driver.librariesOf "384") = .ok false ∧
        succeeds (((resources : Repair Store).onContainer {} .check "c").run w') = false) ∧
    (let ctx : Context := { host := slashHost 4085 }
      let r : Repair Store := renderNodes
      let w := withCard (.file "/dev/dri/card0" 0o660 [])
      let w' := stateOf ((r.onContainer ctx .fix "c").run w)
      let device := Device.passThrough "/dev/dri/card0"
      (r.onContainer ctx .fix "c").run w = .ok () w' ∧
        w'.journal = [.asked (.addDevice "c" "/dev/dri/card0" device)] ∧
        device.hostPath? = some "/dev/dri/card0" ∧
        ctx.host.isPresent w'.tree "/dev/dri/card0" = .error .nameTooLong) := by
  refine ⟨?_, ?_, ?_, ?_⟩
  · dsimp only
    refine And.imp_left eq_ok_of_succeeds ?_
    decide +kernel
  · dsimp only
    refine And.imp_left eq_ok_of_succeeds ?_
    decide +kernel
  · dsimp only
    refine And.imp_left eq_ok_of_succeeds ?_
    decide +kernel
  · have hsame := keepRenderNodes_slashHost (n := 4085) (by decide)
      (withCard (.file "/dev/dri/card0" 0o660 [])) "c"
    have hends : succeeds (((renderNodes : Repair Store).onContainer {} .fix "c").run
        (withCard (.file "/dev/dri/card0" 0o660 []))) = true ∧
        (stateOf (((renderNodes : Repair Store).onContainer {} .fix "c").run
          (withCard (.file "/dev/dri/card0" 0o660 [])))).journal =
            [.asked (.addDevice "c" "/dev/dri/card0" (.passThrough "/dev/dri/card0"))] := by
      decide +kernel
    rw [← hsame] at hends
    exact ⟨eq_ok_of_succeeds hends.1, hends.2, by decide,
      isPresent_slashHost (n := 4085) (by decide) _⟩

end Repair

end BuildTargets
