/-
  BuildTargets/Proofs/Repair/Edits.lean
  =====================================
  **What a successful fix of one container does.**

  The parts of a fix that make requests edit the devices of their container and
  nothing else (`Edits`): devices whose resource is gone are lost, nodes are
  gained, and the device that mounts the libraries is set.  The other parts
  change the tree: a directory is opened, a file is created.  There is one
  lemma for each part, about its successful runs.
-/
import BuildTargets.Proofs.Repair.Clear
import BuildTargets.Proofs.Tree.Listing

namespace BuildTargets

/-! ### Edits of the devices of a container -/

/-- A set of devices before and after. -/
abbrev DeviceEdit : Type := Dict String Device → Dict String Device → Prop

/-- From `w` to `w'` the devices of a container have been edited, and nothing
    else but what has been asked for is new. -/
structure Edits (n : String) (R : DeviceEdit) (w w' : World Store) : Prop where
  tree : w'.tree = w.tree
  drivers : w'.drivers = w.drivers
  others : ∀ n', n' ≠ n → w'.stored? n' = w.stored? n'
  edited : ∀ c, w.stored? n = some c →
    ∃ devices, w'.stored? n = some { c with devices := devices } ∧ R c.devices devices

namespace Edits

variable {n : String} {R : DeviceEdit} {w w' w'' : World Store}

theorem refl (h : ∀ ds, R ds ds) (n : String) (w : World Store) : Edits n R w w :=
  ⟨rfl, rfl, fun _ _ => rfl, fun c hc => ⟨c.devices, hc, h c.devices⟩⟩

theorem trans (hR : ∀ ds ds' ds'', R ds ds' → R ds' ds'' → R ds ds'') (h : Edits n R w w')
    (h' : Edits n R w' w'') : Edits n R w w'' where
  tree := h'.tree.trans h.tree
  drivers := h'.drivers.trans h.drivers
  others := fun n' hn => (h'.others n' hn).trans (h.others n' hn)
  edited := by
    intro c hc
    obtain ⟨ds, hc', hr⟩ := h.edited c hc
    obtain ⟨ds', hc'', hr'⟩ := h'.edited _ hc'
    exact ⟨ds', hc'', hR _ _ _ hr hr'⟩

theorem stored?_withDevices_self {request : Request} (hn : request.container = n) (c : Container)
    (ds : Dict String Device) :
    (w.withDevices request c ds).stored? n = some { c with devices := ds } := by
  rw [World.stored?_withDevices, if_pos hn.symm]

theorem stored?_withDevices_ne {request : Request} {n' : String} (hn : request.container = n)
    (hne : n' ≠ n) (c : Container) (ds : Dict String Device) :
    (w.withDevices request c ds).stored? n' = w.stored? n' := by
  rw [World.stored?_withDevices, if_neg (by rw [hn]; exact hne)]

theorem of_withDevices {request : Request} {c : Container} {ds : Dict String Device}
    (hn : request.container = n) (hc : w.stored? n = some c) (hr : R c.devices ds) :
    Edits n R w (w.withDevices request c ds) where
  tree := rfl
  drivers := rfl
  others := fun n' hn' => stored?_withDevices_ne hn hn' c ds
  edited := by
    intro c' hc'
    rw [hc, Option.some.injEq] at hc'
    subst hc'
    exact ⟨ds, stored?_withDevices_self hn c ds, hr⟩

end Edits

/-- Nothing is new. -/
def Loses : DeviceEdit := fun ds ds' => ∀ k d, ds'.get? k = some d → ds.get? k = some d

/-- Nothing is lost, and what is new satisfies `P`. -/
def Gains (P : String → Device → Prop) : DeviceEdit := fun ds ds' =>
  (∀ k d, ds.get? k = some d → ds'.get? k = some d) ∧
    ∀ k d, ds'.get? k = some d → ds.get? k = some d ∨ P k d

theorem Loses.trans {ds ds' ds'' : Dict String Device} (h : Loses ds ds') (h' : Loses ds' ds'') :
    Loses ds ds'' := fun k d hd => h k d (h' k d hd)

theorem Gains.trans {P : String → Device → Prop} {ds ds' ds'' : Dict String Device}
    (h : Gains P ds ds') (h' : Gains P ds' ds'') : Gains P ds ds'' := by
  refine ⟨fun k d hd => h'.1 k d (h.1 k d hd), fun k d hd => ?_⟩
  rcases h'.2 k d hd with hd' | hp
  · exact h.2 k d hd'
  · exact Or.inr hp

theorem loses_erase (ds : Dict String Device) (k : String) : Loses ds (ds.erase k) := by
  intro k' d hd
  rw [Dict.get?_erase] at hd
  split at hd
  · cases hd
  · exact hd

theorem gains_insert {P : String → Device → Prop} {ds : Dict String Device} {k : String}
    {d : Device} (hk : ds.get? k = none) (hp : P k d) : Gains P ds (ds.insert k d) := by
  constructor
  · intro k' d' hd'
    rw [Dict.get?_insert]
    split
    · next h => rw [h, hk] at hd'; cases hd'
    · exact hd'
  · intro k' d' hd'
    rw [Dict.get?_insert] at hd'
    split at hd'
    · next h =>
      cases hd'
      rw [h]
      exact Or.inr hp
    · exact Or.inl hd'

namespace Repair

variable {ctx : Context} {c : Container} {w w' : World Store}

/-! ### Devices without their resource -/

theorem edits_of_remove {n name : String}
    (h : (World.perform ctx (.removeDevice n name)).run w = .ok () w') :
    Edits n Loses w w' ∧ ∀ c, w'.stored? n = some c → c.devices.get? name = none := by
  obtain ⟨c₀, hc₀, rfl⟩ := World.of_run_perform_remove_ok h
  refine ⟨.of_withDevices rfl hc₀ (loses_erase _ _), fun c hc => ?_⟩
  rw [Edits.stored?_withDevices_self (n := n) rfl, Option.some.injEq] at hc
  rw [← hc, Dict.get?_erase, if_pos rfl]

/-- A device either has its resource or is gone. -/
def ResourceKept (host : HostView) (w : World Store) (n name : String) (device : Device) : Prop :=
  (∀ path, device.hostPath? = some path → host.isPresent w.tree path = .ok true) ∨
    ∀ c, w.stored? n = some c → c.devices.get? name = none

theorem ResourceKept.edits {host : HostView} {n name : String} {device : Device}
    (h : ResourceKept host w n name device) (he : Edits n Loses w w')
    (hstored : ∃ c, w.stored? n = some c) : ResourceKept host w' n name device := by
  rcases h with h | h
  · refine Or.inl fun path hpath => ?_
    rw [he.tree]
    exact h path hpath
  · refine Or.inr fun c' hc' => ?_
    obtain ⟨c₀, hc₀⟩ := hstored
    obtain ⟨ds, hds, hloses⟩ := he.edited c₀ hc₀
    rw [hc', Option.some.injEq] at hds
    subst hds
    cases hd : ds.get? name with
    | none => rfl
    | some d =>
      have hd₀ := hloses name d hd
      rw [h c₀ hc₀] at hd₀
      cases hd₀

theorem edits_of_keepResource {name : String} {device : Device}
    (h : (keepResource ctx .fix c name device).run w = .ok () w') :
    Edits c.name Loses w w' ∧ ResourceKept ctx.host w' c.name name device := by
  have hrefl : Edits c.name Loses w w := .refl (fun _ _ _ h => h) c.name w
  rw [run_keepResource] at h
  cases hpath : device.hostPath? with
  | none =>
    rw [hpath] at h
    cases h
    refine ⟨hrefl, Or.inl fun path hp => ?_⟩
    rw [hpath] at hp
    cases hp
  | some path =>
    rw [hpath] at h
    dsimp only at h
    cases hpresent : ctx.host.isPresent w.tree path with
    | error e =>
      rw [hpresent] at h
      cases h
    | ok present =>
      rw [hpresent] at h
      cases present with
      | true =>
        cases h
        refine ⟨hrefl, Or.inl fun path' hp => ?_⟩
        rw [hpath, Option.some.injEq] at hp
        rw [← hp, hpresent]
      | false =>
        obtain ⟨he, hgone⟩ := edits_of_remove h
        exact ⟨he, Or.inr hgone⟩

theorem edits_of_keepResources (hc : w.stored? c.name = some c)
    (h : (keepResources ctx .fix c).run w = .ok () w') :
    Edits c.name Loses w w' ∧ ∀ name device, c.devices.get? name = some device →
      ResourceKept ctx.host w' c.name name device := by
  let I (rest : List (String × Device)) (w₁ : World Store) : Prop := Edits c.name Loses w w₁ ∧
    ∀ name device, c.devices.get? name = some device →
      (name, device) ∈ rest ∨ ResourceKept ctx.host w₁ c.name name device
  have hstep (e : String × Device) (rest : List (String × Device)) (w₁ w₂ : World Store)
      (hI : I (e :: rest) w₁) (hrun : (keepResource ctx .fix c e.1 e.2).run w₁ = .ok () w₂) :
      I rest w₂ := by
    obtain ⟨he, hkept⟩ := edits_of_keepResource hrun
    refine ⟨hI.1.trans (fun _ _ _ => Loses.trans) he, fun name device hd => ?_⟩
    rcases hI.2 name device hd with hmem | hkept'
    · rcases List.mem_cons.mp hmem with rfl | hrest
      · exact Or.inr hkept
      · exact Or.inl hrest
    · obtain ⟨ds, hds, -⟩ := hI.1.edited c hc
      exact Or.inr (hkept'.edits he ⟨_, hds⟩)
  have hstart : I c.devices.toList w :=
    ⟨.refl (fun _ _ _ h => h) c.name w, fun _ _ hd => Or.inl (Dict.get?_eq_some_iff.mp hd)⟩
  obtain ⟨he, hkept⟩ := run_forM_ok hstep hstart h
  exact ⟨he, fun name device hd => (hkept name device hd).resolve_left List.not_mem_nil⟩

theorem resourcesClear_of_keepResources (hc : w.stored? c.name = some c)
    (h : (keepResources ctx .fix c).run w = .ok () w') {c' : Container}
    (hc' : w'.stored? c.name = some c') : ResourcesClear ctx.host w'.tree c' := by
  obtain ⟨he, hkept⟩ := edits_of_keepResources hc h
  obtain ⟨ds, hds, hloses⟩ := he.edited c hc
  rw [hc', Option.some.injEq] at hds
  subst hds
  intro name device hd path hpath
  rcases hkept name device (hloses name device hd) with hpresent | hgone
  · exact hpresent path hpath
  · rw [hgone _ hc'] at hd
    cases hd

/-! ### Nodes -/

theorem edits_of_add {n name : String} {device : Device} {P : String → Device → Prop}
    (hp : P name device) (h : (World.perform ctx (.addDevice n name device)).run w = .ok () w') :
    Edits n (Gains P) w w' ∧
      ∀ c, w'.stored? n = some c → c.devices.get? name = some device := by
  obtain ⟨c₀, hc₀, hnew, rfl⟩ := World.of_run_perform_add_ok h
  have hnone : c₀.devices.get? name = none := by
    rw [Container.hasDevice, Dict.contains] at hnew
    exact Option.isNone_iff_eq_none.mp (by simpa using hnew)
  refine ⟨.of_withDevices rfl hc₀ (gains_insert hnone hp), fun c hc => ?_⟩
  rw [Edits.stored?_withDevices_self (n := n) rfl, Option.some.injEq] at hc
  rw [← hc, Dict.get?_insert_self]

def PassesOneOf (nodes : List String) (k : String) (d : Device) : Prop :=
  k ∈ nodes ∧ d = .passThrough k

theorem edits_of_passNode {reason node : String} {nodes : List String} (hnode : node ∈ nodes)
    (h : (passNode ctx .fix c reason node).run w = .ok () w') :
    Edits c.name (Gains (PassesOneOf nodes)) w w' ∧
      (c.hasDevice node = true ∨ ∀ c', w'.stored? c.name = some c' → c'.hasDevice node = true) := by
  unfold passNode at h
  split at h
  · next hhas =>
    cases h
    exact ⟨.refl (fun ds => ⟨fun _ _ h => h, fun _ _ h => Or.inl h⟩) c.name w, Or.inl hhas⟩
  · obtain ⟨he, hadded⟩ := edits_of_add (P := PassesOneOf nodes) ⟨hnode, rfl⟩ h
    refine ⟨he, Or.inr fun c' hc' => ?_⟩
    rw [Container.hasDevice, Dict.contains, hadded c' hc']
    rfl

theorem Gains.hasDevice {P : String → Device → Prop} {ds ds' : Dict String Device}
    (h : Gains P ds ds') {k : String} (hk : ds.contains k = true) : ds'.contains k = true := by
  obtain ⟨d, hd⟩ := Option.isSome_iff_exists.mp hk
  exact Option.isSome_of_eq_some (h.1 k d hd)

/-- After a fix of nodes the container has them all. -/
theorem edits_of_passNodes {reason : String} {nodes : List String} {c₀ : Container}
    (hc₀ : w.stored? c.name = some c₀) (hle : ∀ k, c.hasDevice k = true → c₀.hasDevice k = true)
    (h : (nodes.forM (passNode ctx .fix c reason)).run w = .ok () w') :
    Edits c.name (Gains (PassesOneOf nodes)) w w' ∧
      ∀ c', w'.stored? c.name = some c' → ∀ node ∈ nodes, c'.hasDevice node = true := by
  let I (rest : List String) (w₁ : World Store) : Prop :=
    (∀ node ∈ rest, node ∈ nodes) ∧ Edits c.name (Gains (PassesOneOf nodes)) w w₁ ∧
    ∀ node ∈ nodes, node ∈ rest ∨ ∀ c', w₁.stored? c.name = some c' → c'.hasDevice node = true
  have hstep (node : String) (rest : List String) (w₁ w₂ : World Store)
      (hI : I (node :: rest) w₁) (hrun : (passNode ctx .fix c reason node).run w₁ = .ok () w₂) :
      I rest w₂ := by
    obtain ⟨hsub, he, hhas⟩ := hI
    obtain ⟨he', hnode⟩ := edits_of_passNode (hsub node List.mem_cons_self) hrun
    have hall : Edits c.name (Gains (PassesOneOf nodes)) w w₂ :=
      .trans (R := Gains _) (fun _ _ _ => Gains.trans) he he'
    refine ⟨fun k hk => hsub k (List.mem_cons_of_mem _ hk), hall, fun k hk => ?_⟩
    rcases hhas k hk with hmem | hk'
    · rcases List.mem_cons.mp hmem with rfl | hrest
      · refine Or.inr fun c' hc' => ?_
        rcases hnode with hc | hnew
        · obtain ⟨ds, hds, hgains⟩ := hall.edited c₀ hc₀
          rw [hc', Option.some.injEq] at hds
          rw [hds]
          exact Gains.hasDevice hgains (hle k hc)
        · exact hnew c' hc'
      · exact Or.inl hrest
    · refine Or.inr fun c' hc' => ?_
      obtain ⟨ds, hds, -⟩ := he.edited c₀ hc₀
      obtain ⟨ds', hds', hgains⟩ := he'.edited _ hds
      rw [hc', Option.some.injEq] at hds'
      rw [hds']
      exact Gains.hasDevice hgains (hk' _ hds)
  have hstart : I nodes w :=
    ⟨fun _ h => h, .refl (fun ds => ⟨fun _ _ h => h, fun _ _ h => Or.inl h⟩) c.name w,
      fun _ hk => Or.inl hk⟩
  obtain ⟨-, he, hhas⟩ := run_forM_ok hstep hstart h
  refine ⟨he, fun c' hc' node hnode => ?_⟩
  rcases hhas node hnode with hmem | h
  · cases hmem
  · exact h c' hc'

/-! ### The mount of the libraries -/

/-- The mount of the libraries is set, if it was not, and nothing else. -/
def SetsLibraries (driver : Driver) : DeviceEdit := fun ds ds' =>
  (∀ k, k ≠ libraryDevice → ds'.get? k = ds.get? k) ∧
    ∃ d, ds'.get? libraryDevice = some d ∧ d.property? "source" = some driver.libraries ∧
      (ds.get? libraryDevice = some d ∨ d = libraryMountOf driver)

theorem source_libraryMountOf (driver : Driver) :
    (libraryMountOf driver).property? "source" = some driver.libraries := by
  simp [libraryMountOf, Device.make, Device.property?, Dict.ofList, Dict.get?_insert]

theorem setsLibraries_insert {driver : Driver} {ds ds' : Dict String Device}
    (h : ∀ k, k ≠ libraryDevice → ds'.get? k = ds.get? k) :
    SetsLibraries driver ds (ds'.insert libraryDevice (libraryMountOf driver)) := by
  refine ⟨fun k hk => ?_, libraryMountOf driver, Dict.get?_insert_self .., ?_, Or.inr rfl⟩
  · rw [Dict.get?_insert, if_neg hk]
    exact h k hk
  · exact source_libraryMountOf driver

theorem edits_of_keepLibraries {driver : Driver} (hc : w.stored? c.name = some c)
    (h : (keepLibraries ctx .fix c driver).run w = .ok () w') :
    Edits c.name (SetsLibraries driver) w w' := by
  unfold keepLibraries at h
  cases hd : c.devices.get? libraryDevice with
  | none =>
    simp only [hd] at h
    obtain ⟨c₀, hc₀, -, rfl⟩ := World.of_run_perform_add_ok h
    exact .of_withDevices rfl hc₀ (setsLibraries_insert fun _ _ => rfl)
  | some device =>
    simp only [hd] at h
    split at h
    · next hsource =>
      cases h
      refine ⟨rfl, rfl, fun _ _ => rfl, fun c₀ hc₀ => ⟨c₀.devices, hc₀, fun _ _ => rfl, ?_⟩⟩
      rw [hc, Option.some.injEq] at hc₀
      rw [← hc₀]
      exact ⟨device, hd, hsource, Or.inl hd⟩
    · obtain ⟨_, w₁, hremove, hadd⟩ := run_bind_ok.mp h
      obtain ⟨c₀, hc₀, rfl⟩ := World.of_run_perform_remove_ok hremove
      obtain ⟨c₁, hc₁, -, rfl⟩ := World.of_run_perform_add_ok hadd
      rw [Edits.stored?_withDevices_self (n := c.name) rfl, Option.some.injEq] at hc₁
      subst hc₁
      refine ⟨rfl, rfl, fun n hn => ?_, fun c' hc' => ?_⟩
      · rw [Edits.stored?_withDevices_ne (n := c.name) rfl hn,
          Edits.stored?_withDevices_ne (n := c.name) rfl hn]
      · rw [hc₀, Option.some.injEq] at hc'
        subst hc'
        refine ⟨_, Edits.stored?_withDevices_self (n := c.name) rfl .., ?_⟩
        refine setsLibraries_insert fun k hk => ?_
        rw [Dict.get?_erase, if_neg hk]

/-! ### What the new devices claim -/

theorem hostPath?_libraryMountOf (driver : Driver) :
    (libraryMountOf driver).hostPath? = (some driver.libraries).filter (· ≠ "") := by
  have hoptional : (libraryMountOf driver).isOptional = false := by
    simp [libraryMountOf, Device.make, Device.isOptional, Device.property?, Dict.ofList,
      Dict.get?_insert]
  have hkind : (libraryMountOf driver).kind = .disk := rfl
  rw [Device.hostPath?, hoptional, hkind, source_libraryMountOf]
  rfl

theorem hostPath?_passThrough {node : String} {a : Char} (rest : List Char)
    (hnode : node.toList = '/' :: a :: rest) (ha : a ≠ '/') :
    (Device.passThrough node).hostPath? = some node := by
  have hpath : Device.withoutLeadingSlashes node = String.ofList (a :: rest) := by
    rw [Device.withoutLeadingSlashes, hnode]
    simp [ha]
  have hagain : Device.withoutLeadingSlashes (String.ofList (a :: rest)) =
      String.ofList (a :: rest) := by
    rw [Device.withoutLeadingSlashes, String.toList_ofList]
    simp [ha]
  have hne : String.ofList (a :: rest) ≠ "" := by
    rw [Ne, ← String.toList_inj, String.toList_ofList]
    simp
  have hback : "/" ++ String.ofList (a :: rest) = node := by
    rw [← String.toList_inj, String.toList_append, Path.toList_slash, String.toList_ofList, hnode]
    rfl
  rw [Device.passThrough, hpath]
  generalize String.ofList (a :: rest) = leaf at hagain hne hback
  have hclaim : ∃ leaf', (leaf = leaf' ∧ ¬leaf' = "") ∧
      "/" ++ Device.withoutLeadingSlashes leaf' = node :=
    ⟨leaf, ⟨rfl, hne⟩, by rw [hagain, hback]⟩
  simpa [Device.make, Device.hostPath?, Device.isOptional, Device.property?, Dict.ofList,
    Dict.contains, Dict.get?_insert] using hclaim

/-- The device of a node that is listed below `/dev` claims the node. -/
theorem hostPath?_passThrough_of_listed {host : HostView} {t : Tree} {dir node : String}
    (rest : List Char) {isWanted : String → Bool} {nodes : List String}
    (hdir : (HostView.withoutTrailingSlashes dir).toList = '/' :: 'd' :: rest)
    (h : host.nodes t dir isWanted = .ok nodes) (hnode : node ∈ nodes) :
    (Device.passThrough node).hostPath? = some node := by
  obtain ⟨p, m, name, n, -, -, -, -, rfl⟩ := (Tree.mem_nodes_iff h).mp hnode
  refine hostPath?_passThrough (a := 'd') (rest ++ '/' :: name.shown.toList) ?_ (by decide)
  rw [String.toList_append, String.toList_append, hdir]
  simp [Path.toList_slash]

/-! ### Changes of the tree -/

/-- A run that changed nothing but the tree, and that as `T` tells. -/
structure Reshapes (T : Tree → Tree → Prop) (w w' : World Store) : Prop where
  service : w'.service = w.service
  drivers : w'.drivers = w.drivers
  tree : T w.tree w'.tree

/-- A directory that a container needs has got its permission bits. -/
theorem reshapes_of_keepAccess (h : (keepAccess ctx .fix c).run w = .ok () w') :
    Reshapes (fun t t' => t' = t ∧ AccessClear ctx.host t c ∨
      ∃ path p m, accessOf ctx.host t c.name = .ok (path, permissionBits m) ∧
        t.stat path = .ok (p, .dir m) ∧ t' = t.setMode p accessibleMode) w w' := by
  rw [run_keepAccess] at h
  cases haccess : accessOf ctx.host w.tree c.name with
  | error e =>
    rw [haccess] at h
    cases h
  | ok found =>
    obtain ⟨path, bits⟩ := found
    rw [haccess] at h
    dsimp only at h
    split at h
    · next hbits =>
      cases h
      exact ⟨rfl, rfl, Or.inl ⟨rfl, path, by rw [haccess, hbits]⟩⟩
    · obtain ⟨p, m, hstat, rfl⟩ := stat_of_accessOf haccess
      simp only [meet, World.run_change, HostChange.apply, Tree.chmod_of_stat hstat] at h
      cases h
      exact ⟨rfl, rfl, Or.inr ⟨path, p, m, haccess, hstat, rfl⟩⟩

/-- The loader configuration is there, or has been created at a gap. -/
theorem reshapes_of_keepLoaderConfig (h : (keepLoaderConfig ctx .fix c).run w = .ok () w') :
    Reshapes (fun t t' => t' = t ∧
        ctx.host.isPresent t (loaderConfigPath ctx.host c.name) = .ok true ∨
      ∃ q, t.walk false (ctx.host.path (loaderConfigPath ctx.host c.name)) = .ok (.gap q false) ∧
        t' = t.put q (.file loaderConfigMode (Text.encode loaderConfigText))) w w' := by
  rw [run_keepLoaderConfig] at h
  cases hpresent : ctx.host.isPresent w.tree (loaderConfigPath ctx.host c.name) with
  | error e =>
    rw [hpresent] at h
    cases h
  | ok present =>
    rw [hpresent] at h
    cases present with
    | true =>
      cases h
      exact ⟨rfl, rfl, Or.inl ⟨rfl, hpresent⟩⟩
    | false =>
      rcases run_writeLoaderConfig hpresent with ⟨e, detail, -, hrun⟩ | ⟨q, hgap, hrun⟩
      · simp only [meet, hrun] at h
        cases h
      · simp only [meet, hrun] at h
        cases h
        exact ⟨rfl, rfl, Or.inr ⟨q, hgap, rfl⟩⟩

end Repair

end BuildTargets
