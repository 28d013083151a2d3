/-
  BuildTargets/Proofs/Repair/Script.lean
  ======================================
  **The script of a repair: what it is going to do, said before it is done.**

  What a repair does to a container does not change what it looks at next, but
  for one thing: the loader configuration is created before the nodes of the
  driver are listed.  So all looks can be taken beforehand.  They give a
  `Script`: the drifts in the order in which they are met, each with the moves
  that remedy it, and how the looking ends.  A move is a request or a change of
  the host.  Running a repair is following its script, in both modes and on
  every service (`run_follows`).
-/
import BuildTargets.Proofs.Repair.Parts

namespace BuildTargets.Repair

open BuildTargets

variable {β : Type} {ctx : Context} {mode : Mode}

/-! ### Scripts -/

/-- One thing that fix mode does. -/
inductive Move where
  | ask (request : Request)
  /-- Changes of the host, each made right after the one before it. -/
  | reshape (changes : List HostChange) (explain : IoError → Failure)

/-- A drift and the moves that remedy it. -/
structure Point where
  drift : Drift
  remedy : List Move

/-- What a repair finds about a container, and how its looking ends. -/
structure Script where
  points : List Point
  ending : Except Failure Unit

def Move.make [Service β] (ctx : Context) : Move → Action (World β) Unit
  | ask request => World.perform ctx request
  | reshape changes explain => changes.forM (World.change · explain)

namespace Script

/-- Nothing is found. -/
def clear : Script := ⟨[], .ok ()⟩

/-- The looking fails. -/
def failing (e : Failure) : Script := ⟨[], .error e⟩

/-- One drift is found. -/
def single (drift : Drift) (remedy : List Move) : Script := ⟨[⟨drift, remedy⟩], .ok ()⟩

/-- One script after another.  The second is not begun if the first one ends in
    a failure. -/
def append (s s' : Script) : Script :=
  match s.ending with
  | .ok _ => ⟨s.points ++ s'.points, s'.ending⟩
  | .error e => ⟨s.points, .error e⟩

def all {α : Type} (f : α → Script) : List α → Script
  | [] => clear
  | a :: rest => (f a).append (all f rest)

def follow [Service β] (ctx : Context) (mode : Mode) (s : Script) : Action (World β) Unit := do
  s.points.forM fun p => meet mode p.drift (p.remedy.forM (·.make ctx))
  MonadExcept.ofExcept s.ending

/-- The moves of a script, in their order. -/
def moves (s : Script) : List Move := s.points.flatMap (·.remedy)

@[simp] theorem moves_clear : clear.moves = [] := rfl

@[simp] theorem moves_failing (e : Failure) : (failing e).moves = [] := rfl

@[simp] theorem moves_single (drift : Drift) (remedy : List Move) :
    (single drift remedy).moves = remedy := List.append_nil _

theorem mem_moves_append {s s' : Script} {m : Move} (h : m ∈ (s.append s').moves) :
    m ∈ s.moves ∨ m ∈ s'.moves := by
  obtain ⟨points, ending⟩ := s
  cases ending with
  | ok u =>
    rw [moves, append, List.flatMap_append] at h
    exact List.mem_append.mp h
  | error e => exact Or.inl h

theorem mem_moves_all {α : Type} {f : α → Script} {l : List α} {m : Move}
    (h : m ∈ (all f l).moves) : ∃ a ∈ l, m ∈ (f a).moves := by
  induction l with
  | nil => cases h
  | cons a rest ih =>
    rcases mem_moves_append h with h | h
    · exact ⟨a, List.mem_cons_self, h⟩
    · obtain ⟨b, hb, hm⟩ := ih h
      exact ⟨b, List.mem_cons_of_mem _ hb, hm⟩

/-- All that a script does is to make requests. -/
def OnlyAsks (s : Script) : Prop := ∀ m ∈ s.moves, ∃ request, m = .ask request

theorem onlyAsks_all {α : Type} {f : α → Script} {l : List α} (h : ∀ a, (f a).OnlyAsks) :
    (all f l).OnlyAsks := by
  intro m hm
  obtain ⟨a, -, hma⟩ := mem_moves_all hm
  exact h a m hma

/-! ### Following scripts -/

section

variable [Service β]

theorem follow_single (drift : Drift) (remedy : List Move) :
    (single drift remedy).follow ctx mode =
      (meet mode drift (remedy.forM (·.make ctx)) : Action (World β) Unit) := by
  unfold follow single
  dsimp only
  rw [List.forM_eq_forM, List.forM_cons, List.forM_nil, bind_pure_unit]
  exact bind_pure_unit

theorem follow_append (s s' : Script) :
    (s.append s').follow ctx mode = (do
      s.follow ctx mode
      s'.follow ctx mode : Action (World β) Unit) := by
  obtain ⟨points, ending⟩ := s
  cases ending with
  | ok u =>
    unfold follow append
    dsimp only
    rw [List.forM_eq_forM, List.forM_append, bind_assoc, bind_assoc]
    rfl
  | error e =>
    unfold follow append
    dsimp only
    rw [bind_assoc]
    rfl

/-- To fix is to make all moves and then to end as the looking does. -/
theorem follow_fix (s : Script) :
    s.follow ctx .fix = (do
      s.moves.forM (·.make ctx)
      MonadExcept.ofExcept s.ending : Action (World β) Unit) := by
  obtain ⟨points, ending⟩ := s
  unfold follow moves
  dsimp only
  congr 1
  induction points with
  | nil => rfl
  | cons p rest ih =>
    rw [List.forM_eq_forM, List.forM_eq_forM] at ih
    rw [List.flatMap_cons, List.forM_eq_forM, List.forM_eq_forM, List.forM_append,
      List.forM_cons, ih]
    rfl

/-- To check changes nothing. -/
theorem stateOf_follow_check (s : Script) (w : World β) :
    stateOf ((s.follow ctx .check).run w) = w := by
  obtain ⟨points, ending⟩ := s
  cases points with
  | nil => cases ending <;> rfl
  | cons p rest => rfl

/-! ### Actions that follow scripts -/

variable {w : World β}

theorem run_append {x y : Action (World β) Unit} {s s' : Script}
    (hx : x.run w = (s.follow ctx mode).run w)
    (hy : ∀ w', x.run w = .ok () w' → y.run w' = (s'.follow ctx mode).run w') :
    (x >>= fun _ => y).run w = ((s.append s').follow ctx mode).run w := by
  rw [follow_append, EStateM.run_bind, EStateM.run_bind, ← hx]
  cases hrun : x.run w with
  | ok u w' => exact hy w' hrun
  | error e w' => rfl

/-- A relation between worlds that every move of a script keeps is kept by
    following it. -/
theorem keeps_follow {R : World β → World β → Prop} (hrefl : ∀ w, R w w)
    (htrans : ∀ w w' w'', R w w' → R w' w'' → R w w'') (s : Script)
    (hmove : ∀ m ∈ s.moves, Keeps R (m.make ctx)) : Keeps R (s.follow ctx mode) := by
  have hpoints : Keeps R (s.points.forM fun p =>
      meet mode p.drift (p.remedy.forM (·.make ctx)) : Action (World β) Unit) := by
    refine Keeps.forM hrefl htrans fun p hp => ?_
    cases mode with
    | check => exact fun w => hrefl w
    | fix =>
      refine Keeps.forM hrefl htrans fun m hm => hmove m ?_
      exact List.mem_flatMap.mpr ⟨p, hp, hm⟩
  refine Keeps.bind htrans hpoints fun _ w => ?_
  cases s.ending <;> exact hrefl w

/-- Requests do not change the tree, whatever the service does. -/
theorem keeps_tree_perform (request : Request) :
    Keeps (fun w w' : World β => w'.tree = w.tree) (World.perform ctx request) := by
  intro w
  rw [World.perform, EStateM.run_bind, World.run_onService]
  cases (Service.submit request).run w.service with
  | error e s => rfl
  | ok op s =>
    dsimp only
    rw [EStateM.run_bind]
    change (stateOf ((World.onService (Service.settle op ctx.patience)).run _)).tree = _
    rw [World.run_onService]
    split <;> rfl

theorem OnlyAsks.keeps_tree {s : Script} (hs : s.OnlyAsks) :
    Keeps (fun w w' : World β => w'.tree = w.tree) (s.follow ctx mode) := by
  refine keeps_follow (R := fun w w' : World β => w'.tree = w.tree) (fun _ => rfl)
    (fun _ _ _ h h' => h'.trans h) s fun m hm => ?_
  obtain ⟨request, rfl⟩ := hs m hm
  exact keeps_tree_perform request

theorem OnlyAsks.tree_eq {s : Script} (hs : s.OnlyAsks) {w' : World β}
    (h : (s.follow ctx mode).run w = .ok () w') : w'.tree = w.tree := by
  have hend : (stateOf ((s.follow ctx mode).run w)).tree = w.tree := hs.keeps_tree w
  rw [h] at hend
  exact hend

/-- A loop follows a script if each of its rounds does, as long as the tree is
    what it was. -/
theorem run_all {α : Type} {f : α → Action (World β) Unit} {g : α → Script} {l : List α}
    (hrun : ∀ a w', w'.tree = w.tree → (f a).run w' = ((g a).follow ctx mode).run w')
    (hasks : ∀ a, (g a).OnlyAsks) : (l.forM f).run w = ((all g l).follow ctx mode).run w := by
  induction l generalizing w with
  | nil => rfl
  | cons a rest ih =>
    rw [List.forM_eq_forM, List.forM_cons]
    refine run_append (hrun a w rfl) fun w' h => ih fun b w'' htree => ?_
    rw [hrun a w rfl] at h
    exact hrun b w'' (htree.trans ((hasks a).tree_eq h))

end

end Script

/-! ### What is found -/

open Script

def accessScript (host : HostView) (t : Tree) (c : Container) : Script :=
  match accessOf host t c.name with
  | .ok (path, bits) =>
    if bits = accessibleMode then clear
    else single
      ⟨c.name, path.shown, "wrong directory permissions " ++ octal bits ++
        ", container rootfs is not accessible"⟩
      [.reshape [.chmod path accessibleMode] fun e => .repairFailed c.name
        ("failed to make " ++ path.shown ++ " readable: " ++ e.message)]
  | .error e => failing e

def resourceScript (host : HostView) (t : Tree) (c : Container) (name : String)
    (device : Device) : Script :=
  match device.hostPath? with
  | none => clear
  | some path => match host.isPresent t path with
    | .ok true => clear
    | .ok false => single ⟨c.name, name, "device " ++ path ++ " does not exist on the host"⟩
        [.ask (.removeDevice c.name name)]
    | .error e => failing (.inspectionFailed c.name
        ("failed to query device source " ++ path ++ ": " ++ e.message))

def resourcesScript (host : HostView) (t : Tree) (c : Container) : Script :=
  all (fun e => resourceScript host t c e.1 e.2) c.devices.toList

def nodeScript (c : Container) (reason node : String) : Script :=
  if c.hasDevice node then clear
  else single ⟨c.name, node, reason ++ node⟩ [.ask (.addDevice c.name node (.passThrough node))]

/-- What is found about the nodes that a listing gives. -/
def nodesScript (c : Container) (reason : String) : Except IoError (List String) → Script
  | .ok nodes => all (nodeScript c reason) nodes
  | .error e => failing (.io e)

def renderNodesScript (host : HostView) (t : Tree) (c : Container) : Script :=
  if host.confined then clear
  else nodesScript c "container is missing device node " (host.nodes t renderNodeDir isRenderNode)

def librariesScript (c : Container) (driver : Driver) : Script :=
  let add : Move := .ask (.addDevice c.name libraryDevice (libraryMountOf driver))
  match c.devices.get? libraryDevice with
  | some device =>
    if device.property? "source" = some driver.libraries then clear
    else single
      ⟨c.name, libraryDevice,
        "Nvidia binary directory is not pointing to the currently used one"⟩
      [.ask (.removeDevice c.name libraryDevice), add]
  | none => single ⟨c.name, libraryDevice, "Nvidia binary directory is not mounted"⟩ [add]

/-- The move that creates the loader configuration of a container. -/
def createConfig (host : HostView) (container : String) : Move :=
  .reshape
    [.write (host.path (loaderConfigPath host container)) (Text.encode loaderConfigText),
      .chmod (host.path (loaderConfigPath host container)) loaderConfigMode]
    fun e => .repairFailed container
      ("failed to write " ++ loaderConfigPath host container ++ ": " ++ e.message)

def configScript (host : HostView) (t : Tree) (c : Container) : Script :=
  match host.isPresent t (loaderConfigPath host c.name) with
  | .ok true => clear
  | .ok false =>
    single ⟨c.name, loaderConfigPath host c.name, "Nvidia loader config file is missing"⟩
      [createConfig host c.name]
  | .error e => failing (.inspectionFailed c.name
      ("failed to query " ++ loaderConfigPath host c.name ++ ": " ++ e.message))

/-- The tree with the loader configuration of a container, if it can be
    created. -/
def withConfig (host : HostView) (t : Tree) (container : String) : Tree :=
  match t.walk false (host.path (loaderConfigPath host container)) with
  | .ok (.gap q false) => t.put q (.file loaderConfigMode (Text.encode loaderConfigText))
  | _ => t

/-- The nodes of the driver are listed in the tree with the configuration. -/
def driverPartsScript (host : HostView) (t : Tree) (c : Container) (driver : Driver) : Script :=
  (librariesScript c driver).append ((configScript host t c).append
    (nodesScript c "container is missing Nvidia device "
      (host.nodes (withConfig host t c.name) driverNodeDir isDriverNode)))

def driverScript (host : HostView) (t : Tree) (known : Except IoError (Option Driver))
    (c : Container) : Script :=
  match host.isPresent t Driver.versionFile with
  | .ok true => match known with
    | .ok (some driver) => driverPartsScript host t c driver
    | .ok none => clear
    | .error e => failing (.io e)
  | .ok false => clear
  | .error e => failing (.io e)

/-- The world in which `seeker` has looked for the driver, if it would. -/
def recalled (host : HostView) (seeker : String) (w : World β) : World β :=
  match host.isPresent w.tree Driver.versionFile, knownDriver host seeker w with
  | .ok true, .ok (some driver) => remembering w seeker driver
  | _, _ => w

theorem withConfig_of_present {host : HostView} {t : Tree} {container : String}
    (h : host.isPresent t (loaderConfigPath host container) = .ok true) :
    withConfig host t container = t := by
  obtain ⟨q, n, hstat⟩ := Tree.isPresent_eq_true_iff.mp h
  unfold withConfig
  rw [Tree.stat_eq_ok_iff.mp hstat]

theorem onlyAsks_resourceScript (host : HostView) (t : Tree) (c : Container) (name : String)
    (device : Device) : (resourceScript host t c name device).OnlyAsks := by
  unfold resourceScript OnlyAsks
  split
  · simp
  · split <;> simp

theorem onlyAsks_nodeScript (c : Container) (reason node : String) :
    (nodeScript c reason node).OnlyAsks := by
  unfold nodeScript OnlyAsks
  split <;> simp

theorem onlyAsks_resourcesScript (host : HostView) (t : Tree) (c : Container) :
    (resourcesScript host t c).OnlyAsks :=
  onlyAsks_all fun e => onlyAsks_resourceScript host t c e.1 e.2

theorem onlyAsks_nodesScript (c : Container) (reason : String)
    (nodes : Except IoError (List String)) : (nodesScript c reason nodes).OnlyAsks := by
  cases nodes with
  | ok nodes => exact onlyAsks_all (onlyAsks_nodeScript c reason)
  | error e => exact fun m hm => absurd hm List.not_mem_nil

theorem onlyAsks_renderNodesScript (host : HostView) (t : Tree) (c : Container) :
    (renderNodesScript host t c).OnlyAsks := by
  unfold renderNodesScript
  split
  · exact fun m hm => absurd hm List.not_mem_nil
  · exact onlyAsks_nodesScript c _ _

theorem onlyAsks_librariesScript (c : Container) (driver : Driver) :
    (librariesScript c driver).OnlyAsks := by
  unfold librariesScript OnlyAsks
  split
  · split <;> simp
  · simp

/-! ### Repairs follow their scripts -/

section

variable [Service β] (w : World β) (c : Container)

theorem run_meet_single {drift : Drift} {remedy : List Move} {action : Action (World β) Unit}
    (h : action.run w = (remedy.forM (·.make ctx)).run w) :
    (meet mode drift action).run w = ((single drift remedy).follow ctx mode).run w := by
  rw [follow_single]
  cases mode with
  | check => rfl
  | fix => exact h

theorem run_make_ask (request : Request) :
    ([Move.ask request].forM (·.make ctx)).run w = (World.perform ctx request).run w := by
  rw [List.forM_eq_forM, List.forM_cons, List.forM_nil, bind_pure_unit]
  rfl

theorem keepAccess_follows :
    (keepAccess ctx mode c).run w = ((accessScript ctx.host w.tree c).follow ctx mode).run w := by
  rw [run_keepAccess]
  unfold accessScript
  cases accessOf ctx.host w.tree c.name with
  | error e => rfl
  | ok found =>
    obtain ⟨path, bits⟩ := found
    dsimp only
    split
    · rfl
    · refine run_meet_single w ?_
      rw [List.forM_eq_forM, List.forM_cons, List.forM_nil, bind_pure_unit, Move.make,
        List.forM_eq_forM, List.forM_cons, List.forM_nil, bind_pure_unit]

theorem keepResource_follows (name : String) (device : Device) :
    (keepResource ctx mode c name device).run w =
      ((resourceScript ctx.host w.tree c name device).follow ctx mode).run w := by
  rw [run_keepResource]
  unfold resourceScript
  cases device.hostPath? with
  | none => rfl
  | some path =>
    dsimp only
    cases ctx.host.isPresent w.tree path with
    | error e => rfl
    | ok present =>
      cases present with
      | true => rfl
      | false => exact run_meet_single w (run_make_ask w _).symm

theorem passNode_follows (reason node : String) :
    (passNode ctx mode c reason node).run w =
      ((nodeScript c reason node).follow ctx mode).run w := by
  unfold passNode nodeScript
  split
  · rfl
  · exact run_meet_single w (run_make_ask w _).symm

theorem nodes_follow (reason : String) (nodes : List String) :
    (nodes.forM (passNode ctx mode c reason)).run w =
      ((all (nodeScript c reason) nodes).follow ctx mode).run w :=
  run_all (fun node w' _ => passNode_follows w' c reason node) (onlyAsks_nodeScript c reason)

theorem keepResources_follows :
    (keepResources ctx mode c).run w =
      ((resourcesScript ctx.host w.tree c).follow ctx mode).run w := by
  refine run_all (fun e w' htree => ?_) fun e => onlyAsks_resourceScript _ _ c e.1 e.2
  rw [keepResource_follows, htree]

theorem keepRenderNodes_follows :
    (keepRenderNodes ctx mode c).run w =
      ((renderNodesScript ctx.host w.tree c).follow ctx mode).run w := by
  rw [run_keepRenderNodes]
  unfold renderNodesScript
  split
  · rfl
  · cases ctx.host.nodes w.tree renderNodeDir isRenderNode with
    | error e => rfl
    | ok nodes => exact nodes_follow w c _ nodes

theorem keepDriverNodes_follows :
    (keepDriverNodes ctx mode c).run w =
      ((nodesScript c "container is missing Nvidia device "
        (ctx.host.nodes w.tree driverNodeDir isDriverNode)).follow ctx mode).run w := by
  rw [run_keepDriverNodes]
  cases ctx.host.nodes w.tree driverNodeDir isDriverNode with
  | error e => rfl
  | ok nodes => exact nodes_follow w c _ nodes

theorem keepLibraries_follows (driver : Driver) :
    (keepLibraries ctx mode c driver).run w =
      ((librariesScript c driver).follow ctx mode).run w := by
  unfold keepLibraries librariesScript
  cases c.devices.get? libraryDevice with
  | none => exact run_meet_single w (run_make_ask w _).symm
  | some device =>
    dsimp only
    split
    · rfl
    · refine run_meet_single w ?_
      rw [List.forM_eq_forM, List.forM_cons, List.forM_cons, List.forM_nil, bind_pure_unit]
      rfl

theorem make_createConfig :
    (createConfig ctx.host c.name).make ctx = (writeLoaderConfig ctx c : Action (World β) Unit) := by
  unfold createConfig writeLoaderConfig
  rw [Move.make, List.forM_eq_forM, List.forM_cons, List.forM_cons, List.forM_nil, bind_pure_unit]

theorem keepLoaderConfig_follows :
    (keepLoaderConfig ctx mode c).run w =
      ((configScript ctx.host w.tree c).follow ctx mode).run w := by
  rw [run_keepLoaderConfig]
  unfold configScript
  cases ctx.host.isPresent w.tree (loaderConfigPath ctx.host c.name) with
  | error e => rfl
  | ok present =>
    cases present with
    | true => rfl
    | false =>
      refine run_meet_single w ?_
      rw [List.forM_eq_forM, List.forM_cons, List.forM_nil, bind_pure_unit, make_createConfig]

omit [Service β] in
theorem tree_of_keepLoaderConfig {w' : World β}
    (h : (keepLoaderConfig ctx mode c).run w = .ok () w') :
    w'.tree = withConfig ctx.host w.tree c.name := by
  rw [run_keepLoaderConfig] at h
  cases hpresent : ctx.host.isPresent w.tree (loaderConfigPath ctx.host c.name) with
  | error e =>
    rw [hpresent] at h
    cases h
  | ok present =>
    rw [hpresent] at h
    cases present with
    | true =>
      cases h
      rw [withConfig_of_present hpresent]
    | false =>
      cases mode with
      | check => cases h
      | fix =>
        rcases run_writeLoaderConfig hpresent with ⟨e, detail, -, hrun⟩ | ⟨q, hgap, hrun⟩
        · simp only [meet, hrun] at h
          cases h
        · simp only [meet, hrun] at h
          cases h
          unfold withConfig
          rw [hgap]

theorem keepDriverParts_follows (driver : Driver) :
    (keepDriverParts ctx mode c driver).run w =
      ((driverPartsScript ctx.host w.tree c driver).follow ctx mode).run w := by
  have hlibraries : (keepLibraries ctx mode c driver).run w = _ :=
    keepLibraries_follows w c driver
  refine run_append hlibraries fun w₁ h₁ => ?_
  have htree₁ : w₁.tree = w.tree := by
    rw [hlibraries] at h₁
    exact (onlyAsks_librariesScript c driver).tree_eq h₁
  rw [← htree₁]
  refine run_append (keepLoaderConfig_follows w₁ c) fun w₂ h₂ => ?_
  rw [← tree_of_keepLoaderConfig w₁ c h₂]
  exact keepDriverNodes_follows w₂ c

/-- With the driver looked for beforehand, its repair follows a script too. -/
theorem keepDriver_follows (seeker : String) :
    (keepDriver seeker ctx mode c).run w =
      ((driverScript ctx.host w.tree (knownDriver ctx.host seeker w) c).follow ctx mode).run
        (recalled ctx.host seeker w) := by
  rw [run_keepDriver]
  unfold driverScript recalled
  cases ctx.host.isPresent w.tree Driver.versionFile with
  | error e => rfl
  | ok present =>
    cases present with
    | false => rfl
    | true =>
      dsimp only
      cases knownDriver ctx.host seeker w with
      | error e => rfl
      | ok found =>
        cases found with
        | none => rfl
        | some driver => exact keepDriverParts_follows (remembering w seeker driver) c driver

/-- Every repair follows a script, from a world that differs at most in the drivers
    that are remembered. -/
theorem run_follows (ctx : Context) (mode : Mode) (w : World β) (c : Container) {r : Repair β}
    {seeker : String} (hr : r ∈ standard seeker) :
    ∃ s w₀, (r.run ctx mode c).run w = (Script.follow ctx mode s).run w₀ ∧
      w₀.service = w.service ∧ w₀.tree = w.tree ∧ w₀.journal = w.journal := by
  simp only [standard, List.mem_cons, List.not_mem_nil, or_false] at hr
  rcases hr with rfl | rfl | rfl | rfl
  · exact ⟨_, w, keepAccess_follows w c, rfl, rfl, rfl⟩
  · exact ⟨_, w, keepResources_follows w c, rfl, rfl, rfl⟩
  · exact ⟨_, w, keepRenderNodes_follows w c, rfl, rfl, rfl⟩
  · refine ⟨_, _, keepDriver_follows w c seeker, ?_⟩
    unfold recalled
    split <;> exact ⟨rfl, rfl, rfl⟩

end

end BuildTargets.Repair
