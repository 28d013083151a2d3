/-
  BuildTargets/Proofs/Repair/Parts.lean
  =====================================
  **What each part of a repair does when it is run.**

  A part looks at the world first.  It ends there if the look fails or finds
  nothing to do, with the world as it was; otherwise it meets one drift.  There
  is one equation for each part, `run_keepAccess` and so on, and the statements
  about repairs are derived from these equations alone.
-/
import BuildTargets.Proofs.Store
import BuildTargets.Proofs.Tree.Proper
import BuildTargets.Proofs.Tree.Resolution
import BuildTargets.Repair.Standard

namespace BuildTargets.Repair

open BuildTargets

variable {β : Type} (ctx : Context) (mode : Mode) (c : Container)

/-! ### Access -/

/-- The path of the directory of a container, a link resolved. -/
def dirPath (host : HostView) (t : Tree) (container : String) : Except Failure RawText :=
  let path := host.path (host.dirOf container)
  match t.linkStat path with
  | .ok (_, .link _) => match t.realPath path with
    | .ok real => .ok real
    | .error e => .error (.inspectionFailed container
        ("failed to read container link " ++ path ++ ": " ++ e.message))
  | .ok (_, _) => .ok path
  | .error e => .error (cannotQuery container path e)

/-- The path of the directory of a container, with its permission bits. -/
def accessOf (host : HostView) (t : Tree) (container : String) :
    Except Failure (RawText × Nat) :=
  match dirPath host t container with
  | .error e => .error e
  | .ok path => match t.stat path with
    | .ok (_, .dir m) => .ok (path, permissionBits m)
    | .ok (_, _) => .error (.inspectionFailed container (path.shown ++ " is not a directory"))
    | .error e => .error (cannotQuery container path e)

theorem dirPath_eq_ok_iff {host : HostView} {t : Tree} {container : String} {path : RawText} :
    dirPath host t container = .ok path ↔
      ∃ q n, t.linkStat (host.path (host.dirOf container)) = .ok (q, n) ∧
        ((∃ target, n = .link target) ∧
            t.realPath (host.path (host.dirOf container)) = .ok path ∨
          (∀ target, n ≠ .link target) ∧ path = host.path (host.dirOf container)) := by
  unfold dirPath
  dsimp only
  cases t.linkStat (host.path (host.dirOf container)) with
  | error e =>
    constructor
    · intro h
      cases h
    · rintro ⟨_, _, heq, -⟩
      cases heq
  | ok found =>
    obtain ⟨q, n⟩ := found
    cases n with
    | link target =>
      dsimp only
      constructor
      · intro h
        split at h
        · next hreal =>
          cases h
          exact ⟨q, _, rfl, Or.inl ⟨⟨target, rfl⟩, hreal⟩⟩
        · cases h
      · rintro ⟨_, _, heq, ⟨-, hreal⟩ | ⟨hne, -⟩⟩
        · rw [hreal]
        · cases heq
          exact absurd rfl (hne target)
    | _ =>
      constructor
      · intro h
        cases h
        exact ⟨q, _, rfl, Or.inr ⟨fun _ heq => (nomatch heq), rfl⟩⟩
      · rintro ⟨_, _, heq, ⟨⟨target, rfl⟩, -⟩ | ⟨-, rfl⟩⟩
        · cases heq
        · rfl

theorem accessOf_eq_ok_iff {host : HostView} {t : Tree} {container : String} {path : RawText}
    {bits : Nat} :
    accessOf host t container = .ok (path, bits) ↔
      dirPath host t container = .ok path ∧
        ∃ p m, t.stat path = .ok (p, .dir m) ∧ bits = permissionBits m := by
  unfold accessOf
  cases dirPath host t container with
  | error e => simp
  | ok path' =>
    dsimp only
    cases hs : t.stat path' with
    | error e =>
      simp only [reduceCtorEq, Except.ok.injEq, false_iff, not_and, not_exists]
      rintro rfl p m
      simp [hs]
    | ok found =>
      obtain ⟨p, n⟩ := found
      cases n with
      | dir m =>
        simp only [Except.ok.injEq, Prod.mk.injEq]
        constructor
        · rintro ⟨rfl, rfl⟩
          exact ⟨rfl, p, m, hs, rfl⟩
        · rintro ⟨rfl, p', m', hs', rfl⟩
          rw [hs] at hs'
          cases hs'
          exact ⟨rfl, rfl⟩
      | file m content =>
        simp only [reduceCtorEq, Except.ok.injEq, false_iff, not_and, not_exists]
        rintro rfl p' m'
        simp [hs]
      | link target =>
        simp only [reduceCtorEq, Except.ok.injEq, false_iff, not_and, not_exists]
        rintro rfl p' m'
        simp [hs]

theorem stat_of_accessOf {host : HostView} {t : Tree} {container : String} {path : RawText}
    {bits : Nat} (h : accessOf host t container = .ok (path, bits)) :
    ∃ p m, t.stat path = .ok (p, .dir m) ∧ bits = permissionBits m :=
  (accessOf_eq_ok_iff.mp h).2

theorem drift?_of_accessOf {host : HostView} {t : Tree} {container : String} {e : Failure}
    (h : accessOf host t container = .error e) : e.drift? = none := by
  have hpath {e : Failure} (hd : dirPath host t container = .error e) : e.drift? = none := by
    unfold dirPath at hd
    dsimp only at hd
    split at hd
    · split at hd
      · cases hd
      · cases hd; rfl
    · cases hd
    · cases hd; rfl
  unfold accessOf at h
  split at h
  · next hd =>
    cases h
    exact hpath hd
  · split at h
    · cases h
    · cases h; rfl
    · cases h; rfl

theorem run_resolveDir (w : World β) (container : String) :
    (resolveDir ctx container).run w = match dirPath ctx.host w.tree container with
      | .ok path => .ok path w
      | .error e => .error e w := by
  unfold resolveDir dirPath
  simp only [EStateM.run_bind, World.run_look]
  cases w.tree.linkStat (ctx.host.path (ctx.host.dirOf container)) with
  | error e => rfl
  | ok found =>
    obtain ⟨p, n⟩ := found
    cases n with
    | dir m => rfl
    | file m content => rfl
    | link target =>
      simp only [World.run_look]
      cases w.tree.realPath (ctx.host.path (ctx.host.dirOf container)) with
      | ok real => rfl
      | error e => rfl

theorem run_keepAccess (w : World β) :
    (keepAccess ctx mode c).run w = match accessOf ctx.host w.tree c.name with
      | .ok (path, bits) =>
        if bits = accessibleMode then .ok () w
        else (meet mode
          ⟨c.name, path.shown, "wrong directory permissions " ++ octal bits ++
            ", container rootfs is not accessible"⟩
          (World.change (.chmod path accessibleMode) fun e => .repairFailed c.name
            ("failed to make " ++ path.shown ++ " readable: " ++ e.message))).run w
      | .error e => .error e w := by
  unfold keepAccess accessOf
  simp only [EStateM.run_bind, run_resolveDir]
  cases dirPath ctx.host w.tree c.name with
  | error e => rfl
  | ok path =>
    simp only [World.run_look]
    cases w.tree.stat path with
    | error e => rfl
    | ok found =>
      obtain ⟨p, n⟩ := found
      cases n with
      | file m content => rfl
      | link target => rfl
      | dir m =>
        simp only [Node.isDir, Node.mode, Bool.not_true, Bool.false_eq_true, if_false]
        by_cases hbits : permissionBits m = accessibleMode
        · simp only [hbits, if_true]
          rfl
        · simp only [hbits, if_false]

/-! ### Resources and nodes -/

section

variable [Service β]

theorem run_keepResource (w : World β) (name : String) (device : Device) :
    (keepResource ctx mode c name device).run w = match device.hostPath? with
      | none => .ok () w
      | some path => match ctx.host.isPresent w.tree path with
        | .ok true => .ok () w
        | .ok false => (meet mode
            ⟨c.name, name, "device " ++ path ++ " does not exist on the host"⟩
            (World.perform ctx (.removeDevice c.name name))).run w
        | .error e => .error (.inspectionFailed c.name
            ("failed to query device source " ++ path ++ ": " ++ e.message)) w := by
  unfold keepResource
  cases device.hostPath? with
  | none => rfl
  | some path =>
    simp only [EStateM.run_bind, World.run_look]
    cases ctx.host.isPresent w.tree path with
    | error e => rfl
    | ok present => cases present <;> rfl

theorem run_keepRenderNodes (w : World β) :
    (keepRenderNodes ctx mode c).run w =
      if ctx.host.confined then .ok () w
      else match ctx.host.nodes w.tree renderNodeDir isRenderNode with
        | .ok nodes =>
          (nodes.forM (passNode ctx mode c "container is missing device node ")).run w
        | .error e => .error (.io e) w := by
  unfold keepRenderNodes
  cases ctx.host.confined with
  | true => rfl
  | false =>
    simp only [Bool.false_eq_true, if_false, EStateM.run_bind, World.run_look]
    cases ctx.host.nodes w.tree renderNodeDir isRenderNode with
    | error e => rfl
    | ok nodes => rfl

/-! ### The graphics driver -/

omit [Service β] in
/-- A driver is found if its version can be read and its libraries are
    there. -/
theorem find?_eq (host : HostView) (t : Tree) :
    Driver.find? host t = match t.readText (host.path Driver.versionFile) with
      | .ok text => match Driver.ofVersion? text with
        | some driver => match host.isPresent t driver.libraries with
          | .ok true => .ok (some driver)
          | .ok false => .ok none
          | .error e => .error e
        | none => .ok none
      | .error e => .error e := by
  unfold Driver.find?
  cases t.readText (host.path Driver.versionFile) with
  | error e => rfl
  | ok text =>
    simp only [bind, Except.bind]
    cases Driver.ofVersion? text with
    | none => rfl
    | some driver =>
      dsimp only
      cases host.isPresent t driver.libraries with
      | error e => rfl
      | ok present => cases present <;> rfl

omit [Service β] in
theorem libraries_of_find? {host : HostView} {t : Tree} {driver : Driver}
    (h : Driver.find? host t = .ok (some driver)) :
    host.isPresent t driver.libraries = .ok true := by
  rw [find?_eq] at h
  split at h
  · split at h
    · split at h
      · next hpresent => cases h; exact hpresent
      · cases h
      · cases h
    · cases h
  · cases h

/-- The loaded driver as `seeker` knows it or finds it. -/
def knownDriver (host : HostView) (seeker : String) (w : World β) :
    Except IoError (Option Driver) :=
  match w.drivers.get? seeker with
  | some driver => .ok (some driver)
  | none => Driver.find? host w.tree

/-- The world in which `seeker` remembers a driver. -/
def remembering (w : World β) (seeker : String) (driver : Driver) : World β :=
  { w with drivers := w.drivers.insert seeker driver }

omit [Service β] in
theorem remembering_eq_self {w : World β} {seeker : String} {driver : Driver}
    (h : w.drivers.get? seeker = some driver) : remembering w seeker driver = w := by
  rw [remembering, Dict.insert_of_get? h]

omit [Service β] in
theorem run_recall (w : World β) (seeker : String) :
    (Driver.recall ctx.host seeker).run w = match knownDriver ctx.host seeker w with
      | .ok (some driver) => .ok (some driver) (remembering w seeker driver)
      | .ok none => .ok none w
      | .error e => .error (.io e) w := by
  unfold Driver.recall knownDriver
  simp only [EStateM.run_bind, EStateM.run_get]
  cases hd : w.drivers.get? seeker with
  | some driver =>
    simp only [remembering_eq_self hd]
    rfl
  | none =>
    simp only [EStateM.run_bind, World.run_look]
    cases Driver.find? ctx.host w.tree with
    | error e => rfl
    | ok found => cases found <;> rfl

def writeLoaderConfig (ctx : Context) (c : Container) : Action (World β) Unit := do
  let logical := loaderConfigPath ctx.host c.name
  let cannotWrite (e : IoError) : Failure :=
    .repairFailed c.name ("failed to write " ++ logical ++ ": " ++ e.message)
  World.change (.write (ctx.host.path logical) (Text.encode loaderConfigText)) cannotWrite
  World.change (.chmod (ctx.host.path logical) loaderConfigMode) cannotWrite

omit [Service β] in
theorem run_keepLoaderConfig (w : World β) :
    (keepLoaderConfig ctx mode c).run w =
      match ctx.host.isPresent w.tree (loaderConfigPath ctx.host c.name) with
      | .ok true => .ok () w
      | .ok false => (meet mode
          ⟨c.name, loaderConfigPath ctx.host c.name, "Nvidia loader config file is missing"⟩
          (writeLoaderConfig ctx c)).run w
      | .error e => .error (.inspectionFailed c.name
          ("failed to query " ++ loaderConfigPath ctx.host c.name ++ ": " ++ e.message)) w := by
  unfold keepLoaderConfig writeLoaderConfig
  simp only [EStateM.run_bind, World.run_look]
  cases ctx.host.isPresent w.tree (loaderConfigPath ctx.host c.name) with
  | error e => rfl
  | ok present => cases present <;> rfl

theorem run_keepDriverNodes (w : World β) :
    (keepDriverNodes ctx mode c).run w =
      match ctx.host.nodes w.tree driverNodeDir isDriverNode with
      | .ok nodes => (nodes.forM (passNode ctx mode c "container is missing Nvidia device ")).run w
      | .error e => .error (.io e) w := by
  unfold keepDriverNodes
  simp only [EStateM.run_bind, World.run_look]
  cases ctx.host.nodes w.tree driverNodeDir isDriverNode with
  | error e => rfl
  | ok nodes => rfl

/-- Checks or fixes what a container needs of a driver. -/
def keepDriverParts (ctx : Context) (mode : Mode) (c : Container) (driver : Driver) :
    Action (World β) Unit := do
  keepLibraries ctx mode c driver
  keepLoaderConfig ctx mode c
  keepDriverNodes ctx mode c

theorem run_keepDriver (w : World β) (seeker : String) :
    (keepDriver seeker ctx mode c).run w =
      match ctx.host.isPresent w.tree Driver.versionFile with
      | .ok true => match knownDriver ctx.host seeker w with
        | .ok (some driver) =>
          (keepDriverParts ctx mode c driver).run (remembering w seeker driver)
        | .ok none => .ok () w
        | .error e => .error (.io e) w
      | .ok false => .ok () w
      | .error e => .error (.io e) w := by
  unfold keepDriver
  simp only [EStateM.run_bind, World.run_look]
  cases ctx.host.isPresent w.tree Driver.versionFile with
  | error e => rfl
  | ok present =>
    cases present with
    | false => rfl
    | true =>
      simp only [Bool.not_true, Bool.false_eq_true, if_false, EStateM.run_bind, run_recall]
      cases knownDriver ctx.host seeker w with
      | error e => rfl
      | ok found => cases found <;> rfl

end

/-- The configuration is written whole or not at all: it is created where
    nothing stood, with its contents and permission bits. -/
theorem run_writeLoaderConfig {ctx : Context} {c : Container} {w : World β}
    (habsent : ctx.host.isPresent w.tree (loaderConfigPath ctx.host c.name) = .ok false) :
    (∃ e detail,
        w.tree.writeFile (ctx.host.path (loaderConfigPath ctx.host c.name))
          (Text.encode loaderConfigText) = .error e ∧
        (writeLoaderConfig ctx c).run w = .error (.repairFailed c.name detail) w) ∨
      ∃ q, w.tree.walk false (ctx.host.path (loaderConfigPath ctx.host c.name)) =
          .ok (.gap q false) ∧
        (writeLoaderConfig ctx c).run w = .ok () { w with
          tree := w.tree.put q (.file loaderConfigMode (Text.encode loaderConfigText))
          journal := w.journal ++
            [.changed (.write (ctx.host.path (loaderConfigPath ctx.host c.name))
              (Text.encode loaderConfigText))] ++
            [.changed (.chmod (ctx.host.path (loaderConfigPath ctx.host c.name))
              loaderConfigMode)] } := by
  unfold writeLoaderConfig
  have hstat := Tree.isPresent_eq_false_iff.mp habsent
  simp only [EStateM.run_bind, World.run_change, HostChange.apply]
  generalize ctx.host.path (loaderConfigPath ctx.host c.name) = path at hstat ⊢
  generalize Text.encode loaderConfigText = content
  cases hwrite : w.tree.writeFile path content with
  | error e => exact Or.inl ⟨e, _, rfl, rfl⟩
  | ok t =>
    obtain ⟨q, hgap, -, rfl⟩ := Tree.gap_of_writeFile hstat hwrite
    refine Or.inr ⟨q, hgap, ?_⟩
    simp only [Tree.chmod_of_stat (Tree.stat_put_of_gap hgap), Tree.setMode_put_file]

/-! ### Runs on containers -/

section

variable (r : Repair Store)

/-- The build targets of a store, in the order of their names. -/
def targetsOf (s : Store) : List Container := s.containers.values.filter (·.isTarget)

/-- A stopped build target with some devices. -/
def plainTarget (name : String) (devices : Dict String Device) : Container where
  name := name
  status := .stopped
  config := .ofList [(Container.architectureTag, "amd64"), (Container.frameworkTag, "f")]
  devices := devices
  ipv4 := none

/-- A target on a host with a loaded driver.  Each name of a node of the driver ends in
    one byte, which need not make it a text. -/
def nodesEndingIn (bytes : List UInt8) : World Store where
  service := .ofContainers [plainTarget "c" .empty]
  tree := .laidOut ([.dir "/var/lib/lxd/containers/c/rootfs/etc/ld.so.conf.d" 0o755,
    .dir "/usr/lib/nvidia-384" 0o755, .file Driver.versionFile 0o444 (Text.encode "384.111")] ++
      bytes.map fun b => .file ⟨Text.encode "/dev/nvidia" ++ [b]⟩ 0o660 [])

theorem mem_targetsOf_iff {s : Store} {c : Container} :
    c ∈ targetsOf s ↔ (∃ name, s.containers.get? name = some c) ∧ c.isTarget = true := by
  simp only [targetsOf, Dict.values, List.mem_filter, List.mem_map, Prod.exists, exists_eq_right,
    Dict.get?_eq_some_iff]

theorem get?_of_mem_targets {s : Store} (h : s.IsKeyed) {c : Container} (hc : c ∈ targetsOf s) :
    s.containers.get? c.name = some c := by
  obtain ⟨⟨name, hname⟩, -⟩ := mem_targetsOf_iff.mp hc
  rw [h name c hname]
  exact hname

theorem nodup_targetsOf {s : Store} (h : s.IsKeyed) : (targetsOf s).Nodup := by
  have hsorted := s.containers.sorted
  have hkeys (e : String × Container) (he : e ∈ s.containers.toList) : e.2.name = e.1 :=
    h e.1 e.2 (Dict.get?_eq_some_iff.mpr he)
  refine List.Pairwise.filter _ (List.pairwise_map.mpr (hsorted.imp_of_mem ?_))
  intro a b ha hb hlt heq
  have hname : a.1 = b.1 := by rw [← hkeys a ha, ← hkeys b hb, heq]
  rw [hname] at hlt
  exact absurd hlt (String.lt_irrefl b.1)

theorem run_targets (s : Store) :
    (Service.targets : Action Store (List Container)).run s =
      if s.unreachable then .error (.unreachable "backend is unreachable") s
      else .ok (targetsOf s) s := by
  rw [Service.targets, EStateM.run_bind, Store.service_containers, Store.run_listAll]
  cases s.unreachable <;> rfl

theorem run_onTargets (w : World Store) :
    (r.onTargets ctx mode).run w =
      if w.service.unreachable then .error (.unreachable "backend is unreachable") w
      else ((targetsOf w.service).forM (r.run ctx mode)).run w := by
  rw [onTargets, EStateM.run_bind, World.run_onService, run_targets]
  cases w.service.unreachable <;> rfl

theorem run_onContainer (w : World Store) (name : String) :
    (r.onContainer ctx mode name).run w =
      if w.service.unreachable then .error (.unreachable "backend is unreachable") w
      else match w.stored? name with
        | some c => (r.run ctx mode c).run w
        | none => .error (.noContainer name) w := by
  rw [onContainer, EStateM.run_bind, World.run_onService, Store.service_container, Store.run_find,
    World.stored?]
  cases w.service.unreachable with
  | true => rfl
  | false => cases w.service.containers.get? name <;> rfl

theorem run_onContainer_stored {ctx : Context} {mode : Mode} {w : World Store} {name : String}
    {c : Container} (r : Repair Store) (hu : w.service.unreachable = false)
    (hc : w.stored? name = some c) :
    (r.onContainer ctx mode name).run w = (r.run ctx mode c).run w := by
  rw [run_onContainer, hu, if_neg Bool.false_ne_true, hc]

/-- A privileged process is not kept from fixing. -/
theorem run_fixAll {ctx : Context} (h : ctx.privileged = true) (repairs : List (Repair Store))
    (w : World Store) :
    (fixAll repairs ctx).run w = (repairs.forM fun r => r.onTargets ctx .fix).run w := by
  have hauthorize : authorize repairs ctx.privileged = .ok () := by
    rw [authorize, h]
    rfl
  rw [fixAll, hauthorize, EStateM.run_bind]
  rfl

/-- Only a privileged process fixes anything. -/
theorem privileged_of_fixAll {ctx : Context} {seeker : String} {w w' : World Store}
    (h : (fixAll (standard seeker) ctx).run w = .ok () w') : ctx.privileged = true := by
  cases hp : ctx.privileged with
  | true => rfl
  | false =>
    have hauthorize : authorize (standard (β := Store) seeker) ctx.privileged = .error
        (.permissionDenied "fixing rootfs requires root privileges") := by
      rw [hp]
      rfl
    rw [fixAll, hauthorize, EStateM.run_bind] at h
    cases h

theorem run_fixOne {ctx : Context} (h : ctx.privileged = true) (repairs : List (Repair Store))
    (name : String) (w : World Store) :
    (fixOne repairs ctx name).run w =
      (repairs.forM fun r => r.onContainer ctx .fix name).run w := by
  have hauthorize : authorize repairs ctx.privileged = .ok () := by
    rw [authorize, h]
    rfl
  rw [fixOne, hauthorize, EStateM.run_bind]
  rfl

end

end BuildTargets.Repair
