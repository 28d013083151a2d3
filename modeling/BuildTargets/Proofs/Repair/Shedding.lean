/-
  BuildTargets/Proofs/Repair/Shedding.lean
  ========================================
  **What is left of a script after its first move.**

  A repair that is begun again sees a container and a tree that have been changed
  by the moves made before.  Its new script is the rest of the old one: with each
  move the thing that it was for is no longer found, and everything else is found
  as it was (`Abides`).  For devices this is so because a container has each of
  its devices once, and for render nodes because each of their names has its own
  text.  For the graphics driver it is so too, for the nodes are listed in the tree
  with the configuration; but there the text of a node may be listed twice, and then
  one move does away with two (`next_driverParts`).
-/
import BuildTargets.Proofs.Repair.Edits
import BuildTargets.Proofs.Repair.Script
import BuildTargets.Proofs.Tree.Listing

namespace BuildTargets.Repair

open BuildTargets Script

/-! ### Shedding a move -/

/-- All that `s'` lacks of `s` is a first move. -/
structure Script.Sheds (s : Script) (m : Move) (s' : Script) : Prop where
  moves : s.moves = m :: s'.moves
  ending : s.ending = s'.ending

namespace Script

variable {s s' u : Script} {m : Move}

theorem clear_append (s : Script) : clear.append s = s := rfl

theorem moves_append (s u : Script) :
    (s.append u).moves = s.moves ++ match s.ending with
      | .ok _ => u.moves
      | .error _ => [] := by
  obtain ⟨points, ending⟩ := s
  cases ending with
  | ok _ => exact List.flatMap_append
  | error e => exact (List.append_nil _).symm

theorem ending_append (s u : Script) :
    (s.append u).ending = match s.ending with
      | .ok _ => u.ending
      | .error e => .error e := by
  obtain ⟨points, ending⟩ := s
  cases ending <;> rfl

theorem Sheds.append (h : s.Sheds m s') (u : Script) : (s.append u).Sheds m (s'.append u) where
  moves := by rw [moves_append, moves_append, h.moves, h.ending, List.cons_append]
  ending := by rw [ending_append, ending_append, h.ending]

theorem sheds_single (drift : Drift) (m : Move) : (single drift [m]).Sheds m clear := ⟨rfl, rfl⟩

theorem all_congr {α : Type} {f g : α → Script} {l : List α} (h : ∀ a ∈ l, f a = g a) :
    all f l = all g l := by
  induction l with
  | nil => rfl
  | cons a rest ih =>
    rw [all, all, h a List.mem_cons_self, ih fun b hb => h b (List.mem_cons_of_mem _ hb)]

/-- A loop over things of which each is found clear, found out of order with one
    move, or not found at all. -/
theorem cons_of_moves_all {α : Type} {f : α → Script} {a : α} {rest : List α} {m : Move}
    {ms : List Move} (hf : f a = clear ∨ (∃ e, f a = failing e) ∨ ∃ drift m, f a = single drift [m])
    (h : (all f (a :: rest)).moves = m :: ms) :
    f a = clear ∧ (all f rest).moves = m :: ms ∨
      (∃ drift, f a = single drift [m]) ∧ (all f (a :: rest)).Sheds m (all f rest) := by
  rw [all] at h ⊢
  rcases hf with hclear | ⟨e, hfailing⟩ | ⟨drift, m', hsingle⟩
  · rw [hclear] at h
    exact Or.inl ⟨hclear, h⟩
  · rw [hfailing] at h
    cases h
  · rw [hsingle] at h ⊢
    cases h
    exact Or.inr ⟨⟨drift, rfl⟩, (sheds_single drift m).append (all f rest)⟩

end Script

/-! ### Scripts that abide -/

variable {host : HostView} {t : Tree} {c : Container}

/-- What the first move of a script `F t c` is for, and that the script sheds it
    as the move is made. -/
inductive Next (host : HostView) (F : Tree → Container → Script) (t : Tree) (c : Container) :
    Move → Prop where
  | add {name device}
      (h : (F t c).Sheds (.ask (.addDevice c.name name device))
        (F t { c with devices := c.devices.insert name device })) :
      Next host F t c (.ask (.addDevice c.name name device))
  | remove {name}
      (h : (F t c).Sheds (.ask (.removeDevice c.name name))
        (F t { c with devices := c.devices.erase name })) :
      Next host F t c (.ask (.removeDevice c.name name))
  | create (habsent : host.isPresent t (loaderConfigPath host c.name) = .ok false)
      (h : ∀ q, t.walk false (host.path (loaderConfigPath host c.name)) = .ok (.gap q false) →
        (F t c).Sheds (createConfig host c.name) (F (withConfig host t c.name) c)) :
      Next host F t c (createConfig host c.name)

/-- Whatever a script does first, the script of what it makes is the rest. -/
def Abides (host : HostView) (F : Tree → Container → Script) : Prop :=
  ∀ t c m ms, (F t c).moves = m :: ms → Next host F t c m

/-! ### Devices without their resource -/

theorem shape_resourceScript (host : HostView) (t : Tree) (c : Container) (name : String)
    (device : Device) : resourceScript host t c name device = clear ∨
      (∃ e, resourceScript host t c name device = failing e) ∨
      ∃ drift, resourceScript host t c name device =
        single drift [.ask (.removeDevice c.name name)] := by
  unfold resourceScript
  split
  · exact Or.inl rfl
  · split
    · exact Or.inl rfl
    · exact Or.inr (Or.inr ⟨_, rfl⟩)
    · exact Or.inr (Or.inl ⟨_, rfl⟩)

theorem sheds_resources {es : List (String × Device)} (hsorted : es.Pairwise (·.1 < ·.1))
    {m : Move} {ms : List Move}
    (h : (all (fun e => resourceScript host t c e.1 e.2) es).moves = m :: ms) :
    ∃ e ∈ es, m = .ask (.removeDevice c.name e.1) ∧
      (all (fun e => resourceScript host t c e.1 e.2) es).Sheds m
        (all (fun e => resourceScript host t c e.1 e.2) (Dict.eraseEntry e.1 es)) := by
  induction es with
  | nil => cases h
  | cons e rest ih =>
    obtain ⟨hlt, hrest⟩ := List.pairwise_cons.mp hsorted
    have hshape : _ ∨ _ ∨ ∃ drift m, resourceScript host t c e.1 e.2 = single drift [m] :=
      (shape_resourceScript host t c e.1 e.2).imp_right (.imp_right fun ⟨drift, h⟩ => ⟨drift, _, h⟩)
    rcases cons_of_moves_all (f := fun e : String × Device => resourceScript host t c e.1 e.2)
      hshape h with ⟨hclear, hmoves⟩ | ⟨⟨drift, hsingle⟩, hsheds⟩
    · obtain ⟨e', he', hm, hsheds⟩ := ih hrest hmoves
      refine ⟨e', List.mem_cons_of_mem _ he', hm, ?_⟩
      rw [Dict.eraseEntry_cons_of_lt (hlt e' he'), all, all, hclear]
      exact hsheds
    · refine ⟨e, List.mem_cons_self, ?_, ?_⟩
      · rcases shape_resourceScript host t c e.1 e.2 with hshape | ⟨e', hshape⟩ | ⟨drift', hshape⟩
        all_goals
          have hboth := hsingle.symm.trans hshape
          cases hboth
        rfl
      · rw [Dict.eraseEntry_cons_self hlt]
        exact hsheds

theorem abides_resources (host : HostView) : Abides host (resourcesScript host) := by
  intro t c m ms h
  obtain ⟨e, he, rfl, hsheds⟩ := sheds_resources c.devices.sorted h
  exact .remove hsheds

/-! ### Nodes -/

theorem hasDevice_insert (c : Container) (name : String) (device : Device) (k : String) :
    ({ c with devices := c.devices.insert name device } : Container).hasDevice k =
      (k = name || c.hasDevice k) := by
  unfold Container.hasDevice Dict.contains
  rw [Dict.get?_insert]
  by_cases hk : k = name <;> simp [hk]

theorem hasDevice_erase {c : Container} {name k : String} (hk : k ≠ name) :
    ({ c with devices := c.devices.erase name } : Container).hasDevice k = c.hasDevice k := by
  unfold Container.hasDevice Dict.contains
  rw [Dict.get?_erase, if_neg hk]

/-- The container with a node passed through to it. -/
def withNode (c : Container) (node : String) : Container :=
  { c with devices := c.devices.insert node (.passThrough node) }

theorem nodeScript_congr {c c' : Container} {reason node : String} (hname : c'.name = c.name)
    (hhas : c'.hasDevice node = c.hasDevice node) :
    nodeScript c' reason node = nodeScript c reason node := by
  unfold nodeScript
  rw [hname, hhas]

theorem nodeScript_of_has {c : Container} {node : String} (h : c.hasDevice node = true)
    (reason : String) : nodeScript c reason node = clear := by
  unfold nodeScript
  rw [h, if_pos rfl]

theorem nodeScript_of_lacks {c : Container} {node : String} (h : c.hasDevice node = false)
    (reason : String) : nodeScript c reason node = single ⟨c.name, node, reason ++ node⟩
      [.ask (.addDevice c.name node (.passThrough node))] := by
  unfold nodeScript
  rw [h]
  rfl

theorem hasDevice_withNode (c : Container) (node : String) :
    (withNode c node).hasDevice node = true := by
  rw [withNode, hasDevice_insert]
  simp

/-- The script of some nodes begins with the first of them that is missing, and sheds it
    unless it comes again. -/
theorem first_of_nodes {reason : String} {nodes : List String} {m : Move} {ms : List Move}
    (h : (all (nodeScript c reason) nodes).moves = m :: ms) :
    ∃ front node rest, nodes = front ++ node :: rest ∧ c.hasDevice node = false ∧
      m = .ask (.addDevice c.name node (.passThrough node)) ∧
      ms = (all (nodeScript c reason) rest).moves ∧
      (node ∉ rest → (all (nodeScript c reason) nodes).Sheds m
        (all (nodeScript (withNode c node) reason) nodes)) := by
  induction nodes with
  | nil => cases h
  | cons node rest ih =>
    cases hhas : c.hasDevice node with
    | true =>
      rw [all, nodeScript_of_has hhas] at h
      obtain ⟨front, node', rest', rfl, hlacks, hm, hms, hsheds⟩ := ih h
      refine ⟨node :: front, node', rest', rfl, hlacks, hm, hms, fun hnew => ?_⟩
      have hhas' : (withNode c node').hasDevice node = true := by
        rw [withNode, hasDevice_insert, hhas, Bool.or_true]
      rw [all, all, nodeScript_of_has hhas, nodeScript_of_has hhas']
      exact hsheds hnew
    | false =>
      rw [all, nodeScript_of_lacks hhas] at h
      cases h
      refine ⟨[], node, rest, rfl, hhas, rfl, rfl, fun hnew => ?_⟩
      -- the node does not come again, so the rest is found as it was
      have hothers : all (nodeScript (withNode c node) reason) rest =
          all (nodeScript c reason) rest := by
        refine all_congr fun k hk => nodeScript_congr rfl ?_
        have hne : k ≠ node := fun heq => hnew (heq ▸ hk)
        rw [withNode, hasDevice_insert]
        simp [hne]
      rw [all, all, nodeScript_of_lacks hhas, nodeScript_of_has (hasDevice_withNode c node),
        hothers]
      exact (sheds_single _ _).append _

/-- In order, a node that comes again comes next. -/
theorem head?_of_mem {node : String} {rest : List String}
    (hsorted : (node :: rest).Pairwise (· ≤ ·)) (hmem : node ∈ rest) :
    rest.head? = some node := by
  cases rest with
  | nil => cases hmem
  | cons next rest =>
    obtain ⟨hle, hrest⟩ := List.pairwise_cons.mp hsorted
    have hback : next ≤ node := by
      rcases List.mem_cons.mp hmem with rfl | hmem
      · exact le_refl node
      · exact (List.pairwise_cons.mp hrest).1 node hmem
    rw [List.head?_cons, le_antisymm hback (hle next List.mem_cons_self)]

/-- A listing sheds its first move, unless a node is listed twice and is added once more
    by the next one. -/
theorem sheds_nodesScript {reason dir : String} {isWanted : String → Bool} {m : Move}
    {ms : List Move} (h : (nodesScript c reason (host.nodes t dir isWanted)).moves = m :: ms)
    (honce : host.ListsOnce t dir isWanted ∨
      ∀ name device, m = .ask (.addDevice c.name name device) → ms.head? ≠ some m) :
    ∃ node, '/' ∈ node.toList ∧ m = .ask (.addDevice c.name node (.passThrough node)) ∧
      (nodesScript c reason (host.nodes t dir isWanted)).Sheds m
        (nodesScript (withNode c node) reason (host.nodes t dir isWanted)) := by
  cases hnodes : host.nodes t dir isWanted with
  | error e =>
    rw [hnodes] at h
    cases h
  | ok nodes =>
    rw [hnodes] at h
    obtain ⟨front, node, rest, hparts, hlacks, rfl, rfl, hsheds⟩ := first_of_nodes h
    have hnode : node ∈ nodes := by simp [hparts]
    refine ⟨node, Tree.slash_of_mem_nodes hnodes hnode, rfl, hsheds fun hmem => ?_⟩
    rcases honce with honce | hagain
    · have hnodup := honce nodes hnodes
      rw [hparts, List.nodup_append, List.nodup_cons] at hnodup
      exact hnodup.2.1.1 hmem
    · have hsorted := Tree.sorted_nodes hnodes
      rw [hparts, List.pairwise_append] at hsorted
      obtain ⟨others, rfl⟩ := List.head?_eq_some_iff.mp (head?_of_mem hsorted.2.1 hmem)
      refine hagain node _ rfl ?_
      rw [all, nodeScript_of_lacks hlacks, moves_append, moves_single]
      rfl

/-- The name of a render node is ASCII. -/
theorem replacement_notMem_of_isRenderNode {name : String} (h : isRenderNode name = true) :
    Text.replacement ∉ name.toList := by
  have hnumbered {stem : List Char} (hstem : Text.replacement ∉ stem)
      (h : isNumbered stem name.toList = true) : Text.replacement ∉ name.toList := by
    simp only [isNumbered, Bool.and_eq_true, List.isPrefixOf_iff_prefix, List.all_eq_true] at h
    obtain ⟨⟨⟨digits, hdigits⟩, -⟩, hall⟩ := h
    rw [← hdigits, List.drop_left] at hall
    rw [← hdigits, List.mem_append]
    rintro (hmem | hmem)
    · exact hstem hmem
    · exact absurd (hall _ hmem) (by decide)
  rw [isRenderNode, Bool.or_eq_true] at h
  rcases h with h | h
  · exact hnumbered (by decide) h
  · exact hnumbered (by decide) h

theorem listsOnce_renderNodes (host : HostView) (t : Tree) :
    host.ListsOnce t renderNodeDir isRenderNode :=
  Tree.listsOnce_of_texts fun _ _ _ _ _ hwanted =>
    RawText.ofText_shown (replacement_notMem_of_isRenderNode hwanted)

theorem abides_renderNodes (host : HostView) : Abides host (renderNodesScript host) := by
  intro t c m ms h
  unfold renderNodesScript at h
  cases hconfined : host.confined with
  | true =>
    rw [hconfined] at h
    cases h
  | false =>
    rw [hconfined] at h
    obtain ⟨node, -, rfl, hsheds⟩ := sheds_nodesScript h (Or.inl (listsOnce_renderNodes host t))
    refine .add ?_
    unfold renderNodesScript
    rw [hconfined]
    exact hsheds

/-! ### The graphics driver -/

theorem ne_libraryDevice {node : String} (h : '/' ∈ node.toList) : node ≠ libraryDevice := by
  rintro rfl
  revert h
  decide

/-- The mount of the libraries is no node. -/
theorem nodesScript_congr {c c' : Container} (hname : c'.name = c.name)
    (hhas : ∀ k, k ≠ libraryDevice → c'.hasDevice k = c.hasDevice k) (reason dir : String)
    (isWanted : String → Bool) :
    nodesScript c' reason (host.nodes t dir isWanted) =
      nodesScript c reason (host.nodes t dir isWanted) := by
  cases hnodes : host.nodes t dir isWanted with
  | error e => rfl
  | ok nodes =>
    refine all_congr fun node hnode => nodeScript_congr hname (hhas node ?_)
    exact ne_libraryDevice (Tree.slash_of_mem_nodes hnodes hnode)

/-- The mount of the libraries is as it has to be. -/
def HoldsLibraries (c : Container) (driver : Driver) : Prop :=
  ∃ device, c.devices.get? libraryDevice = some device ∧
    device.property? "source" = some driver.libraries

theorem HoldsLibraries.script {driver : Driver} (h : HoldsLibraries c driver) :
    librariesScript c driver = clear := by
  obtain ⟨device, hdevice, hsource⟩ := h
  unfold librariesScript
  dsimp only
  rw [hdevice]
  dsimp only
  rw [if_pos hsource]

theorem HoldsLibraries.withNode {driver : Driver} (h : HoldsLibraries c driver) {node : String}
    (hnode : node ≠ libraryDevice) : HoldsLibraries (withNode c node) driver := by
  obtain ⟨device, hdevice, hsource⟩ := h
  refine ⟨device, ?_, hsource⟩
  rw [Repair.withNode, Dict.get?_insert, if_neg hnode.symm, hdevice]

theorem sheds_libraries (c : Container) (driver : Driver) :
    HoldsLibraries c driver ∨
      (librariesScript c driver).Sheds (.ask (.removeDevice c.name libraryDevice))
        (librariesScript { c with devices := c.devices.erase libraryDevice } driver) ∨
      (librariesScript c driver).Sheds
        (.ask (.addDevice c.name libraryDevice (libraryMountOf driver)))
        (librariesScript
          { c with devices := c.devices.insert libraryDevice (libraryMountOf driver) } driver) := by
  cases hdevice : c.devices.get? libraryDevice with
  | none =>
    refine Or.inr (Or.inr ?_)
    have hmounted : librariesScript
        { c with devices := c.devices.insert libraryDevice (libraryMountOf driver) } driver =
        clear :=
      HoldsLibraries.script ⟨_, Dict.get?_insert_self .., source_libraryMountOf driver⟩
    rw [hmounted]
    unfold librariesScript
    dsimp only
    rw [hdevice]
    exact sheds_single _ _
  | some device =>
    by_cases hsource : device.property? "source" = some driver.libraries
    · exact Or.inl ⟨device, hdevice, hsource⟩
    · refine Or.inr (Or.inl ?_)
      have hgone : (c.devices.erase libraryDevice).get? libraryDevice = none := by
        rw [Dict.get?_erase, if_pos rfl]
      unfold librariesScript
      dsimp only
      rw [hdevice, hgone]
      dsimp only
      rw [if_neg hsource]
      exact ⟨rfl, rfl⟩

theorem configScript_of_present (h : host.isPresent t (loaderConfigPath host c.name) = .ok true) :
    configScript host t c = clear := by
  unfold configScript
  rw [h]

theorem isPresent_withConfig {container : String} {q : Place}
    (hgap : t.walk false (host.path (loaderConfigPath host container)) = .ok (.gap q false)) :
    host.isPresent (withConfig host t container) (loaderConfigPath host container) = .ok true := by
  unfold withConfig
  rw [hgap]
  exact Tree.isPresent_eq_true_iff.mpr ⟨q, _, Tree.stat_put_of_gap hgap⟩

/-- What is found once the libraries are mounted. -/
theorem HoldsLibraries.driverParts {driver : Driver} (h : HoldsLibraries c driver) :
    driverPartsScript host t c driver = (configScript host t c).append
      (nodesScript c "container is missing Nvidia device "
        (host.nodes (withConfig host t c.name) driverNodeDir isDriverNode)) := by
  unfold driverPartsScript
  rw [h.script, clear_append]

/-- What is found once the configuration is there too. -/
theorem HoldsLibraries.driverParts_of_present {driver : Driver} (h : HoldsLibraries c driver)
    (hpresent : host.isPresent t (loaderConfigPath host c.name) = .ok true) :
    driverPartsScript host t c driver =
      nodesScript c "container is missing Nvidia device "
        (host.nodes t driverNodeDir isDriverNode) := by
  rw [h.driverParts, configScript_of_present hpresent, clear_append,
    withConfig_of_present hpresent]

theorem sheds_driverParts_of_libraries {driver : Driver} {m : Move} {c' : Container}
    (hname : c'.name = c.name)
    (hhas : ∀ k, k ≠ libraryDevice → c'.hasDevice k = c.hasDevice k)
    (h : (librariesScript c driver).Sheds m (librariesScript c' driver)) :
    (driverPartsScript host t c driver).Sheds m (driverPartsScript host t c' driver) := by
  have hconfig : configScript host t c' = configScript host t c := by
    unfold configScript
    rw [hname]
  unfold driverPartsScript
  rw [hconfig, hname, nodesScript_congr hname hhas]
  exact h.append _

/-- The nodes of the driver, which are listed when the configuration of a container is
    there, are each listed once. -/
def NodesOnce (host : HostView) (t : Tree) (container : String) : Prop :=
  host.ListsOnce (withConfig host t container) driverNodeDir isDriverNode

theorem next_of_mounted {driver : Driver} (hmounted : HoldsLibraries c driver) {m : Move}
    {ms : List Move} (h : (driverPartsScript host t c driver).moves = m :: ms)
    (honce : NodesOnce host t c.name ∨
      ∀ name device, m = .ask (.addDevice c.name name device) → ms.head? ≠ some m) :
    Next host (fun t c => driverPartsScript host t c driver) t c m := by
  cases hpresent : host.isPresent t (loaderConfigPath host c.name) with
  | error e =>
    rw [hmounted.driverParts] at h
    unfold configScript at h
    rw [hpresent] at h
    cases h
  | ok present =>
    cases present with
    | true =>
      rw [NodesOnce, withConfig_of_present hpresent] at honce
      rw [hmounted.driverParts_of_present hpresent] at h
      obtain ⟨node, hslash, rfl, hsheds⟩ := sheds_nodesScript h honce
      have hmounted' := hmounted.withNode (ne_libraryDevice hslash)
      have hrest : driverPartsScript host t (withNode c node) driver = _ :=
        hmounted'.driverParts_of_present hpresent
      rw [← hmounted.driverParts_of_present hpresent, ← hrest] at hsheds
      exact .add hsheds
    | false =>
      have hmissing : ∃ drift, configScript host t c =
          single drift [createConfig host c.name] := by
        unfold configScript
        rw [hpresent]
        exact ⟨_, rfl⟩
      obtain ⟨drift, hconfig⟩ := hmissing
      rw [hmounted.driverParts, hconfig] at h
      cases h
      refine .create hpresent fun q hgap => ?_
      have hrest := hmounted.driverParts_of_present (isPresent_withConfig hgap)
      rw [hmounted.driverParts, hconfig, hrest]
      exact (sheds_single _ _).append _

/-- Unless a node is listed twice and is added once more by the next move, the script of
    what the first move makes is the rest. -/
theorem next_driverParts {driver : Driver} {m : Move} {ms : List Move}
    (h : (driverPartsScript host t c driver).moves = m :: ms)
    (honce : NodesOnce host t c.name ∨
      ∀ name device, m = .ask (.addDevice c.name name device) → ms.head? ≠ some m) :
    Next host (fun t c => driverPartsScript host t c driver) t c m := by
  have hfirst {m' : Move} {c' : Container}
      (hsheds : (driverPartsScript host t c driver).Sheds m' (driverPartsScript host t c' driver)) :
      m = m' := by
    have hmoves : (driverPartsScript host t c driver).moves = m :: ms := h
    rw [hsheds.moves] at hmoves
    exact (List.cons.inj hmoves).1.symm
  rcases sheds_libraries c driver with hmounted | hremove | hadd
  · exact next_of_mounted hmounted h honce
  · have hsheds : (driverPartsScript host t c driver).Sheds _ (driverPartsScript host t
        { c with devices := c.devices.erase libraryDevice } driver) :=
      sheds_driverParts_of_libraries rfl (fun k hk => hasDevice_erase hk) hremove
    rw [hfirst hsheds]
    exact .remove hsheds
  · have hsheds : (driverPartsScript host t c driver).Sheds _ (driverPartsScript host t
        { c with devices := c.devices.insert libraryDevice (libraryMountOf driver) } driver) :=
      sheds_driverParts_of_libraries rfl
        (fun k hk => by simp [hasDevice_insert, hk]) hadd
    rw [hfirst hsheds]
    exact .add hsheds

end BuildTargets.Repair
