/-
  BuildTargets/Proofs/Repair/Installation.lean
  ============================================
  **What the fix of the graphics driver does to one container.**

  Without a driver that can be used nothing is done.  Otherwise the fix has three
  steps in a fixed order: the mount of the libraries, the loader configuration and the
  nodes, which are listed when the configuration has been created.  A step that fails
  ends the fix, and what was done before it stays (`Installation`).

  Each step has its own relation, which says what the host and the container are like
  in each case and what follows from it: `Mounting`, `Configuring` and `Passing`.
-/
import BuildTargets.Proofs.Repair.Provision

namespace BuildTargets.Repair

open BuildTargets Script

variable {host : HostView} {t : Tree} {c : Container} {ctx : Context} {w : World Store}
variable {driver : Driver}

/-! ### The three steps -/

/-- The requests for the mount of the libraries, and the devices after them. -/
inductive Mounting (c : Container) (driver : Driver) :
    List Request → Dict String Device → Prop where
  | kept {d} (hd : c.devices.get? "nv-bin" = some d)
      (hsource : d.property? "source" = some driver.libraries) :
      Mounting c driver [] c.devices
  | replaced {d} (hd : c.devices.get? "nv-bin" = some d)
      (hsource : d.property? "source" ≠ some driver.libraries) :
      Mounting c driver
        [.removeDevice c.name "nv-bin", .addDevice c.name "nv-bin" (libraryMountOf driver)]
        ((c.devices.erase "nv-bin").insert "nv-bin" (libraryMountOf driver))
  | made (hnone : c.devices.get? "nv-bin" = none) :
      Mounting c driver [.addDevice c.name "nv-bin" (libraryMountOf driver)]
        (c.devices.insert "nv-bin" (libraryMountOf driver))

/-- What is done about the loader configuration, the tree after it, and how it ends. -/
inductive Configuring (host : HostView) (t : Tree) (container : String) :
    List Deed → Tree → Except Failure Unit → Prop where
  | present {q n} (hstat : t.stat (host.path (loaderConfigPath host container)) = .ok (q, n)) :
      Configuring host t container [] t (.ok ())
  | created {q}
      (habsent : t.stat (host.path (loaderConfigPath host container)) = .error .notFound)
      (hgap : t.walk false (host.path (loaderConfigPath host container)) = .ok (.gap q false)) :
      Configuring host t container
        [.changed (.write (host.path (loaderConfigPath host container))
            (Text.encode "/usr/lib/nvidia-gl\n")),
          .changed (.chmod (host.path (loaderConfigPath host container)) 0o664)]
        (t.put q (.file 0o664 (Text.encode "/usr/lib/nvidia-gl\n"))) (.ok ())
  | hidden {e} (hstat : t.stat (host.path (loaderConfigPath host container)) = .error e)
      (hne : e ≠ .notFound) :
      Configuring host t container [] t (.error (.inspectionFailed container
        ("failed to query " ++ loaderConfigPath host container ++ ": " ++ e.message)))
  | refused {e}
      (habsent : t.stat (host.path (loaderConfigPath host container)) = .error .notFound)
      (hwrite : t.writeFile (host.path (loaderConfigPath host container))
        (Text.encode "/usr/lib/nvidia-gl\n") = .error e) :
      Configuring host t container [] t (.error (.repairFailed container
        ("failed to write " ++ loaderConfigPath host container ++ ": " ++ e.message)))

/-- What the three steps come to.  The nodes are listed in the tree that the
    configuration is in. -/
inductive Installation (host : HostView) (t : Tree) (c : Container) (driver : Driver) :
    Effect → Prop where
  | cut {requests devices deeds tree failure} (hmount : Mounting c driver requests devices)
      (hconfig : Configuring host t c.name deeds tree (.error failure)) :
      Installation host t c driver
        ⟨.error failure, requests.map .asked ++ deeds, devices, tree⟩
  | run {requests mounted deeds tree asked added devices result}
      (hmount : Mounting c driver requests mounted)
      (hconfig : Configuring host t c.name deeds tree (.ok ()))
      (hnodes : Passing host tree c.name "/dev" IsDriverName c.devices asked added result)
      (hdevices : ∀ k, devices.get? k =
        if k ∈ added then some (.passThrough k) else mounted.get? k) :
      Installation host t c driver
        ⟨result, requests.map .asked ++ (deeds ++ asked.map fun node =>
          .asked (.addDevice c.name node (.passThrough node))), devices, tree⟩

/-! ### The driver -/

/-- What the host tells of the loaded driver. -/
inductive Tells (host : HostView) (t : Tree) : Except IoError (Option Driver) → Prop where
  | unloaded (habsent : t.stat (host.path Driver.versionFile) = .error .notFound) :
      Tells host t (.ok none)
  | hidden {e} (hstat : t.stat (host.path Driver.versionFile) = .error e) (hne : e ≠ .notFound) :
      Tells host t (.error e)
  | unreadable {q n e} (hstat : t.stat (host.path Driver.versionFile) = .ok (q, n))
      (hread : t.readText (host.path Driver.versionFile) = .error e) : Tells host t (.error e)
  | unrecognised {text} (hread : t.readText (host.path Driver.versionFile) = .ok text)
      (hversion : Driver.ofVersion? text = none) : Tells host t (.ok none)
  | lacking {text driver} (hread : t.readText (host.path Driver.versionFile) = .ok text)
      (hversion : Driver.ofVersion? text = some driver)
      (habsent : t.stat (host.path driver.libraries) = .error .notFound) : Tells host t (.ok none)
  | hiddenLibraries {text driver e}
      (hread : t.readText (host.path Driver.versionFile) = .ok text)
      (hversion : Driver.ofVersion? text = some driver)
      (hstat : t.stat (host.path driver.libraries) = .error e) (hne : e ≠ .notFound) :
      Tells host t (.error e)
  | usable {text driver q n} (hread : t.readText (host.path Driver.versionFile) = .ok text)
      (hversion : Driver.ofVersion? text = some driver)
      (hstat : t.stat (host.path driver.libraries) = .ok (q, n)) : Tells host t (.ok (some driver))

/-- What the fix of the graphics driver comes to. -/
inductive DriverFix (host : HostView) (t : Tree) (c : Container) : Effect → Prop where
  | unneeded (h : Tells host t (.ok none)) : DriverFix host t c ⟨.ok (), [], c.devices, t⟩
  | failed {e} (h : Tells host t (.error e)) :
      DriverFix host t c ⟨.error (.io e), [], c.devices, t⟩
  | installed {driver e} (h : Tells host t (.ok (some driver)))
      (heffect : Installation host t c driver e) : DriverFix host t c e

/-- A file whose version file is there tells what is found by reading it. -/
theorem tells_find? {q : Place} {n : Node}
    (hstat : t.stat (host.path Driver.versionFile) = .ok (q, n)) :
    Tells host t (Driver.find? host t) := by
  rw [find?_eq]
  cases hread : t.readText (host.path Driver.versionFile) with
  | error e => exact .unreadable hstat hread
  | ok text =>
    dsimp only
    cases hversion : Driver.ofVersion? text with
    | none => exact .unrecognised hread hversion
    | some driver =>
      dsimp only
      cases hpresent : host.isPresent t driver.libraries with
      | ok present =>
        cases present with
        | true =>
          obtain ⟨q, n, hlibraries⟩ := Tree.isPresent_eq_true_iff.mp hpresent
          exact .usable hread hversion hlibraries
        | false => exact .lacking hread hversion (Tree.isPresent_eq_false_iff.mp hpresent)
      | error e =>
        obtain ⟨hlibraries, hne⟩ := Tree.isPresent_eq_error_iff.mp hpresent
        exact .hiddenLibraries hread hversion hlibraries hne

/-! ### Effects of the steps -/

theorem Mounting.refits {requests : List Request} {devices : Dict String Device}
    (h : Mounting c driver requests devices) : Refits c.name requests c.devices devices := by
  cases h with
  | kept hd hsource => exact .nil _
  | replaced hd hsource =>
    have hgone : (c.devices.erase "nv-bin").contains "nv-bin" = false := by
      simp [Dict.contains, Dict.get?_erase]
    have hhas : c.devices.contains "nv-bin" = true := by simp [Dict.contains, hd]
    exact .remove hhas (.add hgone (.nil _))
  | made hnone =>
    have hlacks : c.devices.contains "nv-bin" = false := by simp [Dict.contains, hnone]
    exact .add hlacks (.nil _)

/-- The mount is no node. -/
theorem Mounting.contains {requests : List Request} {devices : Dict String Device}
    (h : Mounting c driver requests devices) {k : String} (hk : k ≠ libraryDevice) :
    devices.contains k = c.hasDevice k := by
  have hk' : k ≠ "nv-bin" := hk
  cases h with
  | kept hd hsource => rfl
  | replaced hd hsource =>
    simp [Container.hasDevice, Dict.contains, Dict.get?_insert, Dict.get?_erase, hk']
  | made hnone => simp [Container.hasDevice, Dict.contains, Dict.get?_insert, hk']

theorem mounting_librariesScript (c : Container) (driver : Driver) :
    ∃ devices, Mounting c driver (librariesScript c driver).requests devices ∧
      (librariesScript c driver).ending = .ok () := by
  unfold librariesScript
  cases hd : c.devices.get? libraryDevice with
  | none => exact ⟨_, .made hd, rfl⟩
  | some d =>
    by_cases hsource : d.property? "source" = some driver.libraries
    · simp only [if_pos hsource]
      exact ⟨_, .kept hd hsource, rfl⟩
    · simp only [if_neg hsource]
      exact ⟨_, .replaced hd hsource, rfl⟩

theorem hasEffect_keepLibraries (hw : Willing ctx w) (hc : w.stored? c.name = some c)
    (driver : Driver) :
    ∃ requests devices, Mounting c driver requests devices ∧
      HasEffect c w ((keepLibraries ctx .fix c driver).run w)
        ⟨.ok (), requests.map .asked, devices, w.tree⟩ := by
  obtain ⟨devices, hmount, hending⟩ := mounting_librariesScript c driver
  have heffect := hasEffect_follow (onlyAsks_librariesScript c driver) hw hc hmount.refits
  rw [hending, ← keepLibraries_follows] at heffect
  exact ⟨_, devices, hmount, heffect⟩

/-- A configuration that cannot be written is not there at all. -/
theorem run_writeLoaderConfig_of_refused {e : IoError}
    (hwrite : w.tree.writeFile (ctx.host.path (loaderConfigPath ctx.host c.name))
      (Text.encode loaderConfigText) = .error e) :
    (writeLoaderConfig ctx c).run w = .error (.repairFailed c.name
      ("failed to write " ++ loaderConfigPath ctx.host c.name ++ ": " ++ e.message)) w := by
  unfold writeLoaderConfig
  simp only [EStateM.run_bind, World.run_change, HostChange.apply, hwrite]

theorem hasEffect_keepLoaderConfig (ctx : Context) (c : Container) {now : Dict String Device}
    (hc : w.stored? c.name = some { c with devices := now }) :
    ∃ deeds tree result, Configuring ctx.host w.tree c.name deeds tree result ∧
      HasEffect { c with devices := now } w ((keepLoaderConfig ctx .fix c).run w)
        ⟨result, deeds, now, tree⟩ := by
  have hidle {r : EStateM.Result Failure (World Store) Unit} (hstate : stateOf r = w) :=
    HasEffect.idle (c := { c with devices := now }) hc hstate
  rw [run_keepLoaderConfig]
  cases hpresent : ctx.host.isPresent w.tree (loaderConfigPath ctx.host c.name) with
  | error e =>
    obtain ⟨hstat, hne⟩ := Tree.isPresent_eq_error_iff.mp hpresent
    exact ⟨[], w.tree, _, .hidden hstat hne, hidle rfl⟩
  | ok present =>
    cases present with
    | true =>
      obtain ⟨q, n, hstat⟩ := Tree.isPresent_eq_true_iff.mp hpresent
      exact ⟨[], w.tree, _, .present hstat, hidle rfl⟩
    | false =>
      have habsent := Tree.isPresent_eq_false_iff.mp hpresent
      change ∃ deeds tree result, _ ∧
        HasEffect { c with devices := now } w ((writeLoaderConfig ctx c).run w) _
      rcases run_writeLoaderConfig hpresent with ⟨e, detail, hwrite, -⟩ | ⟨q, hgap, hrun⟩
      · rw [run_writeLoaderConfig_of_refused hwrite]
        exact ⟨[], w.tree, _, .refused habsent hwrite, hidle rfl⟩
      · rw [hrun, List.append_assoc]
        have heffect := HasEffect.reshaped (c := { c with devices := now }) hc
          [.write (ctx.host.path (loaderConfigPath ctx.host c.name)) (Text.encode loaderConfigText),
            .chmod (ctx.host.path (loaderConfigPath ctx.host c.name)) loaderConfigMode]
          (w.tree.put q (.file loaderConfigMode (Text.encode loaderConfigText)))
        exact ⟨_, _, .ok (), .created habsent hgap, heffect⟩

theorem hasEffect_keepDriverParts (hw : Willing ctx w) (hc : w.stored? c.name = some c)
    (driver : Driver) :
    ∃ e, Installation ctx.host w.tree c driver e ∧
      HasEffect c w ((keepDriverParts ctx .fix c driver).run w) e := by
  obtain ⟨requests, mounted, hmount, hlibraries⟩ := hasEffect_keepLibraries hw hc driver
  obtain ⟨deeds, tree, result, hconfig, hwritten⟩ :=
    hasEffect_keepLoaderConfig ctx c hlibraries.stored
  have hstored := hwritten.stored
  have htree := hwritten.tree
  rw [hlibraries.tree] at hconfig
  dsimp only at hwritten hconfig hstored htree
  cases result with
  | error failure =>
    exact ⟨_, .cut hmount hconfig, hlibraries.andThen hwritten.cut⟩
  | ok u =>
    -- the nodes are compared with the devices from before the mount, which is no node
    have hw' := hwritten.willing (hlibraries.willing hw)
    obtain ⟨asked, added, devices, result, hnodes, hpassed, hdevices⟩ :=
      passes_nodes (c := c) ctx.host driverNodeDir (by decide)
        (fun _ => isDriverNode_iff) hw' hstored (fun k hk => hmount.contains hk)
        "container is missing Nvidia device "
    rw [← keepDriverNodes_follows] at hpassed
    rw [htree] at hnodes hpassed
    exact ⟨_, .run hmount hconfig hnodes hdevices,
      hlibraries.andThen (hwritten.andThen hpassed)⟩

/-- A target that mounts the libraries of an older driver and has one of the two nodes. -/
def upgradedDriver : World Store where
  service := .ofContainers [plainTarget "c" (.ofList [
    ("nv-bin", libraryMountOf ⟨"375", Driver.librariesOf "375"⟩),
    ("/dev/nvidia0", .passThrough "/dev/nvidia0")])]
  tree := .laidOut [.dir "/var/lib/lxd/containers/c/rootfs/etc/ld.so.conf.d" 0o755,
    .dir "/usr/lib/nvidia-384" 0o755, .file "/dev/nvidia0" 0o660 [],
    .file "/dev/nvidiactl" 0o660 [], .dir "/dev/nvidia-caps" 0o755, .file "/dev/null" 0o666 [],
    .file Driver.versionFile 0o444 (Text.encode "384.111")]

end BuildTargets.Repair
