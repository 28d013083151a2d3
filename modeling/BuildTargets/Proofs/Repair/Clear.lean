/-
  BuildTargets/Proofs/Repair/Clear.lean
  =====================================
  **When nothing needs fixing.**

  A container is `Clear` if none of the repairs has anything to do for it.  This
  depends on the tree, on the driver that is known or found, and on the
  container itself, and check mode decides it: run on worlds that agree in these
  respects, a check passes if and only if all build targets are clear
  (`decides_checkAll`).
-/
import BuildTargets.Proofs.Repair.Parts

namespace BuildTargets.Repair

/-! ### Clear containers -/

/-- The directory of a container is one that everybody can read. -/
def AccessClear (host : HostView) (t : Tree) (c : Container) : Prop :=
  ∃ path, accessOf host t c.name = .ok (path, accessibleMode)

/-- What the devices of a container claim of the host is there. -/
def ResourcesClear (host : HostView) (t : Tree) (c : Container) : Prop :=
  ∀ name device, c.devices.get? name = some device →
    ∀ path, device.hostPath? = some path → host.isPresent t path = .ok true

/-- The nodes of a directory can be listed, and a container has them all. -/
def NodesClear (host : HostView) (t : Tree) (dir : String) (isWanted : String → Bool)
    (c : Container) : Prop :=
  ∃ nodes, host.nodes t dir isWanted = .ok nodes ∧ ∀ node ∈ nodes, c.hasDevice node = true

/-- A container has the render nodes, if they can be reached. -/
def RenderNodesClear (host : HostView) (t : Tree) (c : Container) : Prop :=
  host.confined = true ∨ NodesClear host t renderNodeDir isRenderNode c

/-- A container has what it needs of a driver. -/
structure DriverPartsClear (host : HostView) (t : Tree) (driver : Driver) (c : Container) :
    Prop where
  libraries : ∃ device, c.devices.get? libraryDevice = some device ∧
    device.property? "source" = some driver.libraries
  config : host.isPresent t (loaderConfigPath host c.name) = .ok true
  nodes : NodesClear host t driverNodeDir isDriverNode c

/-- A container has what it needs of the driver that is known or found, if there
    is one. -/
def DriverClear (host : HostView) (t : Tree) (known : Except IoError (Option Driver))
    (c : Container) : Prop :=
  host.isPresent t Driver.versionFile = .ok false ∨
    host.isPresent t Driver.versionFile = .ok true ∧
      (known = .ok none ∨ ∃ driver, known = .ok (some driver) ∧ DriverPartsClear host t driver c)

/-- No repair has anything to do for a container. -/
structure Clear (host : HostView) (t : Tree) (known : Except IoError (Option Driver))
    (c : Container) : Prop where
  access : AccessClear host t c
  resources : ResourcesClear host t c
  renderNodes : RenderNodesClear host t c
  driver : DriverClear host t known c

/-! ### Check mode decides -/

section

variable {ctx : Context} {t : Tree} {c : Container} {K : World Store → Prop}

theorem decides_keepAccess (hK : ∀ w, K w → w.tree = t) :
    Decides K (keepAccess ctx .check c) (AccessClear ctx.host t c) := by
  refine .of_run fun w hw => ?_
  have hrun := run_keepAccess ctx .check c w
  rw [hK w hw] at hrun
  rw [hrun, AccessClear]
  cases accessOf ctx.host t c.name with
  | error e => exact ⟨fun ⟨path, h⟩ => (nomatch h), fun _ => ⟨_, _, rfl⟩⟩
  | ok found =>
    obtain ⟨path, bits⟩ := found
    dsimp only
    by_cases hbits : bits = accessibleMode
    · subst hbits
      exact ⟨fun _ => if_pos rfl, fun h => absurd ⟨path, rfl⟩ h⟩
    · rw [if_neg hbits]
      refine ⟨?_, fun _ => ⟨_, _, rfl⟩⟩
      rintro ⟨path', h⟩
      cases h
      exact absurd rfl hbits

theorem decides_keepResource (hK : ∀ w, K w → w.tree = t) (name : String) (device : Device) :
    Decides K (keepResource ctx .check c name device)
      (∀ path, device.hostPath? = some path → ctx.host.isPresent t path = .ok true) := by
  refine .of_run fun w hw => ?_
  have hrun := run_keepResource ctx .check c w name device
  rw [hK w hw] at hrun
  rw [hrun]
  cases device.hostPath? with
  | none => exact ⟨fun _ => rfl, fun h => absurd (fun _ h' => nomatch h') h⟩
  | some path =>
    simp only [Option.some.injEq, forall_eq']
    cases ctx.host.isPresent t path with
    | error e => exact ⟨fun h => (nomatch h), fun _ => ⟨_, _, rfl⟩⟩
    | ok present =>
      cases present with
      | true => exact ⟨fun _ => rfl, fun h => absurd rfl h⟩
      | false => exact ⟨fun h => (nomatch h), fun _ => ⟨_, _, rfl⟩⟩

theorem decides_keepResources (hK : ∀ w, K w → w.tree = t) :
    Decides K (keepResources ctx .check c) (ResourcesClear ctx.host t c) := by
  refine (Decides.forM fun e _ => decides_keepResource hK e.1 e.2).congr ?_
  simp only [ResourcesClear, Dict.get?_eq_some_iff, Prod.forall]

theorem decides_passNode (reason node : String) :
    Decides K (passNode ctx .check c reason node) (c.hasDevice node = true) := by
  refine .of_run fun w _ => ?_
  unfold passNode
  cases c.hasDevice node with
  | true => exact ⟨fun _ => rfl, fun h => absurd rfl h⟩
  | false => exact ⟨fun h => (nomatch h), fun _ => ⟨_, _, rfl⟩⟩

/-- A part that lists nodes and passes each of them decides whether a container
    has them all. -/
theorem decides_nodes {x : Action (World Store) Unit} {dir : String} (reason : String)
    {isWanted : String → Bool}
    (hrun : ∀ w, K w → x.run w = match ctx.host.nodes t dir isWanted with
      | .ok nodes => (nodes.forM (passNode ctx .check c reason)).run w
      | .error e => .error (.io e) w) :
    Decides K x (NodesClear ctx.host t dir isWanted c) := by
  unfold NodesClear
  cases hnodes : ctx.host.nodes t dir isWanted with
  | error e =>
    simp only [hnodes] at hrun
    refine .of_run fun w hw => ⟨?_, fun _ => ⟨_, _, hrun w hw⟩⟩
    rintro ⟨nodes, h, -⟩
    cases h
  | ok nodes =>
    simp only [hnodes] at hrun
    have hall : Decides K (nodes.forM (passNode ctx .check c reason))
        (∀ node ∈ nodes, c.hasDevice node = true) :=
      .forM fun node _ => decides_passNode reason node
    intro w hw
    rw [hrun w hw]
    refine ⟨(hall w hw).1.trans ⟨fun h => ⟨nodes, rfl, h⟩, ?_⟩, (hall w hw).2⟩
    rintro ⟨nodes', h, hhas⟩
    cases h
    exact hhas

theorem decides_keepRenderNodes (hK : ∀ w, K w → w.tree = t) :
    Decides K (keepRenderNodes ctx .check c) (RenderNodesClear ctx.host t c) := by
  unfold RenderNodesClear
  cases hconfined : ctx.host.confined with
  | true =>
    refine .of_run fun w _ => ⟨fun _ => ?_, fun h => absurd (Or.inl rfl) h⟩
    rw [run_keepRenderNodes, hconfined]
    rfl
  | false =>
    refine (decides_nodes (t := t) "container is missing device node " fun w hw => ?_).congr
      ⟨Or.inr, fun h => h.resolve_left (by decide)⟩
    rw [run_keepRenderNodes, hconfined, hK w hw]
    rfl

theorem decides_keepLibraries (driver : Driver) :
    Decides K (keepLibraries ctx .check c driver)
      (∃ device, c.devices.get? libraryDevice = some device ∧
        device.property? "source" = some driver.libraries) := by
  refine .of_run fun w _ => ?_
  unfold keepLibraries
  cases c.devices.get? libraryDevice with
  | none => exact ⟨fun ⟨_, h, _⟩ => (nomatch h), fun _ => ⟨_, _, rfl⟩⟩
  | some device =>
    dsimp only
    split
    · next hsource => exact ⟨fun _ => rfl, fun h => absurd ⟨device, rfl, hsource⟩ h⟩
    · next hsource =>
      refine ⟨?_, fun _ => ⟨_, _, rfl⟩⟩
      rintro ⟨device', h, hsource'⟩
      cases h
      exact absurd hsource' hsource

theorem decides_keepLoaderConfig (hK : ∀ w, K w → w.tree = t) :
    Decides K (keepLoaderConfig ctx .check c)
      (ctx.host.isPresent t (loaderConfigPath ctx.host c.name) = .ok true) := by
  refine .of_run fun w hw => ?_
  rw [run_keepLoaderConfig, hK w hw]
  cases ctx.host.isPresent t (loaderConfigPath ctx.host c.name) with
  | error e => exact ⟨fun h => (nomatch h), fun _ => ⟨_, _, rfl⟩⟩
  | ok present =>
    cases present with
    | true => exact ⟨fun _ => rfl, fun h => absurd rfl h⟩
    | false => exact ⟨fun h => (nomatch h), fun _ => ⟨_, _, rfl⟩⟩

theorem decides_keepDriverParts (hK : ∀ w, K w → w.tree = t) (driver : Driver) :
    Decides K (keepDriverParts ctx .check c driver) (DriverPartsClear ctx.host t driver c) := by
  have hnodes : Decides K (keepDriverNodes ctx .check c)
      (NodesClear ctx.host t driverNodeDir isDriverNode c) := by
    refine decides_nodes "container is missing Nvidia device " fun w hw => ?_
    have hrun := run_keepDriverNodes ctx .check c w
    rw [hK w hw] at hrun
    exact hrun
  refine ((decides_keepLibraries driver).seq
    ((decides_keepLoaderConfig hK).seq hnodes)).congr ⟨?_, ?_⟩
  · rintro ⟨hlibraries, hconfig, hnodes⟩
    exact ⟨hlibraries, hconfig, hnodes⟩
  · rintro ⟨hlibraries, hconfig, hnodes⟩
    exact ⟨hlibraries, hconfig, hnodes⟩

end

/-! ### Checks of all build targets -/

/-- A class of worlds that agree in what a check depends on, closed under
    remembering the driver if there is a target that makes a check look for it. -/
structure Alike (host : HostView) (seeker : String) (s : Store) (t : Tree)
    (known : Except IoError (Option Driver)) (K : World Store → Prop) : Prop where
  service : ∀ w, K w → w.service = s
  tree : ∀ w, K w → w.tree = t
  knows : ∀ w, K w → knownDriver host seeker w = known
  remembering : ∀ w driver c, K w → c ∈ targetsOf s →
    host.isPresent t Driver.versionFile = .ok true → known = .ok (some driver) →
    K (remembering w seeker driver)

section

variable {ctx : Context} {seeker : String} {s : Store} {t : Tree}
  {known : Except IoError (Option Driver)} {K : World Store → Prop} {c : Container}

theorem decides_keepDriver (hK : Alike ctx.host seeker s t known K) (hc : c ∈ targetsOf s) :
    Decides K (keepDriver seeker ctx .check c) (DriverClear ctx.host t known c) := by
  unfold DriverClear
  have hrun (w : World Store) (hw : K w) := run_keepDriver ctx .check c w seeker
  cases hpresent : ctx.host.isPresent t Driver.versionFile with
  | error e =>
    refine .of_run fun w hw => ⟨?_, fun _ => ⟨.io e, w, ?_⟩⟩
    · rintro (h | ⟨h, -⟩) <;> cases h
    · rw [hrun w hw, hK.tree w hw, hpresent]
  | ok present =>
    cases present with
    | false =>
      refine .of_run fun w hw => ⟨fun _ => ?_, fun h => absurd (Or.inl rfl) h⟩
      rw [hrun w hw, hK.tree w hw, hpresent]
    | true =>
      cases hknown : known with
      | error e =>
        refine .of_run fun w hw => ⟨?_, fun _ => ⟨.io e, w, ?_⟩⟩
        · rintro (h | ⟨-, h | ⟨driver, h, -⟩⟩) <;> cases h
        · rw [hrun w hw, hK.tree w hw, hpresent, hK.knows w hw, hknown]
      | ok found =>
        cases found with
        | none =>
          refine .of_run fun w hw => ⟨fun _ => ?_, fun h => absurd (Or.inr ⟨rfl, Or.inl rfl⟩) h⟩
          rw [hrun w hw, hK.tree w hw, hpresent, hK.knows w hw, hknown]
        | some driver =>
          have hparts : Decides K (keepDriverParts ctx .check c driver)
              (DriverPartsClear ctx.host t driver c) := decides_keepDriverParts hK.tree driver
          intro w hw
          rw [hrun w hw, hK.tree w hw, hpresent, hK.knows w hw, hknown]
          obtain ⟨hiff, hkeep⟩ := hparts _ (hK.remembering w driver c hw hc hpresent hknown)
          refine ⟨hiff.trans ⟨fun h => Or.inr ⟨rfl, Or.inr ⟨driver, rfl, h⟩⟩, ?_⟩, hkeep⟩
          rintro (h | ⟨-, h | ⟨driver', h, hclear⟩⟩)
          · cases h
          · cases h
          · cases h
            exact hclear

theorem decides_onTargets {r : Repair Store} {P : Container → Prop}
    (hK : Alike ctx.host seeker s t known K) (hreachable : s.unreachable = false)
    (hrun : ∀ c ∈ targetsOf s, Decides K (r.run ctx .check c) (P c)) :
    Decides K (r.onTargets ctx .check) (∀ c ∈ targetsOf s, P c) := by
  intro w hw
  rw [run_onTargets, hK.service w hw, hreachable]
  exact Decides.forM hrun w hw

/-- A check passes if and only if every build target is clear. -/
theorem decides_checkAll (hK : Alike ctx.host seeker s t known K)
    (hreachable : s.unreachable = false) :
    Decides K (checkAll (standard seeker) ctx) (∀ c ∈ targetsOf s, Clear ctx.host t known c) := by
  have haccess := decides_onTargets (r := access) hK hreachable
    fun c _ => decides_keepAccess hK.tree
  have hresources := decides_onTargets (r := resources) hK hreachable
    fun c _ => decides_keepResources hK.tree
  have hrenderNodes := decides_onTargets (r := renderNodes) hK hreachable
    fun c _ => decides_keepRenderNodes hK.tree
  have hdriver := decides_onTargets (r := graphicsDriver seeker) hK hreachable
    fun c hc => decides_keepDriver hK hc
  have hend : Decides K (pure () : Action (World Store) Unit) True :=
    .of_run fun w _ => ⟨fun _ => rfl, fun h => absurd trivial h⟩
  refine (haccess.seq (hresources.seq (hrenderNodes.seq (hdriver.seq hend)))).congr ⟨?_, ?_⟩
  · rintro ⟨h₁, h₂, h₃, h₄, -⟩ c hc
    exact ⟨h₁ c hc, h₂ c hc, h₃ c hc, h₄ c hc⟩
  · intro h
    exact ⟨fun c hc => (h c hc).access, fun c hc => (h c hc).resources,
      fun c hc => (h c hc).renderNodes, fun c hc => (h c hc).driver, trivial⟩

end

end BuildTargets.Repair
