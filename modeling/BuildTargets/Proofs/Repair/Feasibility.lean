/-
  BuildTargets/Proofs/Repair/Feasibility.lean
  ===========================================
  **Every request of a fix can be carried out.**

  The requests of a script follow from what was found beforehand: a device is taken
  away because the container has it, and added because the container lacks it.  No
  device is met twice but for the mount of the libraries, which is taken away before
  it is added.  So each request can be carried out when its turn comes
  (`Script.IsFeasible`).

  For the nodes of the driver this takes that each is listed once (`NodesOnce`).

  It can also be written on a command line: whatever goes into it comes from the
  container or is the name of something in the tree, and none of that holds a NUL
  (`Script.IsSpellable`).
-/
import BuildTargets.Client
import BuildTargets.Proofs.Json.Decode
import BuildTargets.Proofs.Repair.Shedding
import BuildTargets.Proofs.Tree.Texts

namespace BuildTargets

/-! ### Arguments -/

/-- A text that a process can be started with. -/
def IsArgument (text : String) : Prop := '\x00' ∉ text.toList

instance (text : String) : Decidable (IsArgument text) :=
  inferInstanceAs (Decidable ('\x00' ∉ text.toList))

theorem IsArgument.append {s t : String} (hs : IsArgument s) (ht : IsArgument t) :
    IsArgument (s ++ t) := by
  intro h
  rw [String.toList_append, List.mem_append] at h
  exact h.elim hs ht

/-- All that a request passes on can be an argument. -/
def Request.IsSpellable (request : Request) : Prop := ∀ a ∈ request.arguments, IsArgument a

theorem Device.isArgument_of_make {kind : DeviceKind} {properties : List (String × String)}
    (hdistinct : (properties.map (·.1)).Nodup)
    (h : ∀ e ∈ properties, IsArgument e.1 ∧ IsArgument e.2) :
    ∀ a ∈ (make kind properties).arguments, IsArgument a := by
  intro a ha
  obtain ⟨⟨k, value⟩, he, rfl⟩ := List.mem_map.mp ha
  obtain ⟨hk, hvalue⟩ := h _ ((Dict.get?_ofList hdistinct k value).mp (Dict.get?_eq_some_iff.mpr he))
  exact (hk.append (by decide)).append hvalue

theorem Device.isArgument_withoutLeadingSlashes {path : String} (h : IsArgument path) :
    IsArgument (withoutLeadingSlashes path) := by
  intro hmem
  rw [withoutLeadingSlashes, String.toList_ofList] at hmem
  exact h ((List.dropWhile_suffix _).subset hmem)

namespace Request

variable {container name : String}

/-- The request is for a device of the container. -/
def IsEditOf (container : String) : Request → Prop
  | addDevice n _ _ => n = container
  | removeDevice n _ => n = container
  | stop _ _ => False
  | delete _ => False

theorem isSpellable_remove (hcontainer : IsArgument container) (hname : IsArgument name) :
    (removeDevice container name).IsSpellable := by
  simp only [IsSpellable, arguments, List.forall_mem_cons]
  exact ⟨by decide, by decide, by decide, hcontainer, hname, by simp⟩

theorem isSpellable_stop {force : Bool} (hcontainer : IsArgument container) :
    (stop container force).IsSpellable := by
  intro a ha
  cases force <;> simp only [arguments, Bool.false_eq_true, if_false, if_true, List.cons_append,
    List.nil_append, List.mem_cons, List.not_mem_nil, or_false] at ha
  · rcases ha with rfl | rfl
    · decide
    · exact hcontainer
  · rcases ha with rfl | rfl | rfl
    · decide
    · exact hcontainer
    · decide

theorem isSpellable_delete (hcontainer : IsArgument container) :
    (delete container).IsSpellable := by
  simp only [IsSpellable, arguments, List.forall_mem_cons]
  exact ⟨by decide, hcontainer, by simp⟩

theorem isSpellable_add {kind : DeviceKind} {properties : List (String × String)}
    (hcontainer : IsArgument container) (hname : IsArgument name) (hkind : IsArgument kind.name)
    (hdistinct : (properties.map (·.1)).Nodup)
    (hproperties : ∀ e ∈ properties, IsArgument e.1 ∧ IsArgument e.2) :
    (addDevice container name (.make kind properties)).IsSpellable := by
  simp only [IsSpellable, arguments, List.cons_append, List.nil_append, List.forall_mem_cons]
  exact ⟨by decide, by decide, by decide, hcontainer, hname, hkind,
    Device.isArgument_of_make hdistinct hproperties⟩

end Request

/-! ### Requests in their order -/

/-- The requests, made of a container one after the other, turn its devices into
    others.  Each takes away a device that is there, or adds one that is not. -/
inductive Refits (container : String) :
    List Request → Dict String Device → Dict String Device → Prop where
  | nil (devices : Dict String Device) : Refits container [] devices devices
  | remove {name : String} {rest : List Request} {devices devices' : Dict String Device}
      (hhas : devices.contains name = true)
      (hrest : Refits container rest (devices.erase name) devices') :
      Refits container (.removeDevice container name :: rest) devices devices'
  | add {name : String} {device : Device} {rest : List Request}
      {devices devices' : Dict String Device} (hlacks : devices.contains name = false)
      (hrest : Refits container rest (devices.insert name device) devices') :
      Refits container (.addDevice container name device :: rest) devices devices'

theorem Refits.append {container : String} {requests requests' : List Request}
    {devices devices' devices'' : Dict String Device}
    (h : Refits container requests devices devices')
    (h' : Refits container requests' devices' devices'') :
    Refits container (requests ++ requests') devices devices'' := by
  induction h with
  | nil devices => exact h'
  | remove hhas _ ih => exact .remove hhas (ih h')
  | add hlacks _ ih => exact .add hlacks (ih h')

/-- Devices that are not there, and have different names, can be added. -/
theorem refits_additions (container : String) (f : String → Device) {names : List String}
    (hnodup : names.Nodup) {devices : Dict String Device}
    (hlacks : ∀ name ∈ names, devices.contains name = false) :
    ∃ devices', Refits container (names.map fun name => .addDevice container name (f name)) devices
      devices' := by
  induction names generalizing devices with
  | nil => exact ⟨devices, .nil devices⟩
  | cons name rest ih =>
    obtain ⟨hnew, hrest⟩ := List.nodup_cons.mp hnodup
    obtain ⟨hlacks, hothers⟩ := List.forall_mem_cons.mp hlacks
    have hlater (other : String) (hother : other ∈ rest) :
        (devices.insert name (f name)).contains other = false := by
      have hne : other ≠ name := fun heq => hnew (heq ▸ hother)
      rw [Dict.contains, Dict.get?_insert, if_neg hne]
      exact hothers other hother
    obtain ⟨devices', hrefits⟩ := ih hrest hlater
    exact ⟨devices', .add hlacks hrefits⟩

/-- The container and its devices have names that can be arguments. -/
structure Container.IsNamed (c : Container) : Prop where
  name : IsArgument c.name
  devices : ∀ k d, c.devices.get? k = some d → IsArgument k

namespace Repair

def Move.request? : Move → Option Request
  | ask request => some request
  | reshape _ _ => none

/-- A request for a device of a container that can be written on a command line, or
    changes at paths that are texts. -/
def Move.IsSpellable (container : String) : Move → Prop
  | ask request => request.IsEditOf container ∧ request.IsSpellable
  | reshape changes _ => ∀ change ∈ changes, change.IsTextual

namespace Script

/-- The requests among the moves of a script. -/
def requests (s : Script) : List Request := s.moves.filterMap Move.request?

theorem requests_append (s u : Script) :
    (s.append u).requests = s.requests ++ match s.ending with
      | .ok _ => u.requests
      | .error _ => [] := by
  rw [requests, moves_append, List.filterMap_append]
  cases s.ending <;> rfl

/-- All requests of the script can be carried out for a container with some devices. -/
def IsFeasible (s : Script) (container : String) (devices : Dict String Device) : Prop :=
  ∃ devices', Refits container s.requests devices devices'

variable {s u : Script} {container : String} {devices devices' : Dict String Device}

theorem isFeasible_of_no_requests (h : s.requests = []) : s.IsFeasible container devices :=
  ⟨devices, h ▸ .nil devices⟩

theorem IsFeasible.append (hs : Refits container s.requests devices devices')
    (hu : u.IsFeasible container devices') : (s.append u).IsFeasible container devices := by
  obtain ⟨devices'', hu⟩ := hu
  rw [IsFeasible, requests_append]
  cases s.ending with
  | ok _ => exact ⟨devices'', hs.append hu⟩
  | error e => exact ⟨devices', hs.append (.nil devices')⟩

/-- Every move of the script can be spelled out. -/
def IsSpellable (s : Script) (container : String) : Prop :=
  ∀ m ∈ s.moves, m.IsSpellable container

theorem isSpellable_clear : clear.IsSpellable container := fun _ hm => absurd hm List.not_mem_nil

theorem isSpellable_failing (e : Failure) : (failing e).IsSpellable container :=
  fun _ hm => absurd hm List.not_mem_nil

theorem isSpellable_single {drift : Drift} {m : Move} (h : m.IsSpellable container) :
    (single drift [m]).IsSpellable container := by
  intro m' hm
  rw [moves_single, List.mem_singleton] at hm
  rw [hm]
  exact h

theorem IsSpellable.append (hs : s.IsSpellable container) (hu : u.IsSpellable container) :
    (s.append u).IsSpellable container :=
  fun m hm => (mem_moves_append hm).elim (hs m) (hu m)

theorem isSpellable_all {α : Type} {f : α → Script} {l : List α}
    (h : ∀ a ∈ l, (f a).IsSpellable container) : (all f l).IsSpellable container := by
  intro m hm
  obtain ⟨a, ha, hm⟩ := mem_moves_all hm
  exact h a ha m hm

end Script

open Script

variable {host : HostView} {t : Tree} {c : Container} {driver : Driver}

/-! ### Access -/

theorem requests_accessScript (host : HostView) (t : Tree) (c : Container) :
    (accessScript host t c).requests = [] := by
  unfold accessScript
  split
  · split <;> rfl
  · rfl

theorem isSpellable_access (host : HostView) (t : Tree) (c : Container) :
    (accessScript host t c).IsSpellable c.name := by
  unfold accessScript
  split
  · split
    · exact isSpellable_clear
    · refine isSpellable_single fun change hchange => ?_
      rw [List.mem_singleton.mp hchange]
      trivial
  · exact isSpellable_failing _

/-! ### Devices without their resource -/

theorem isFeasible_resources {es : List (String × Device)} (hsorted : es.Pairwise (·.1 < ·.1))
    {devices : Dict String Device} (hhas : ∀ e ∈ es, devices.contains e.1 = true) :
    (all (fun e => resourceScript host t c e.1 e.2) es).IsFeasible c.name devices := by
  induction es generalizing devices with
  | nil => exact isFeasible_of_no_requests rfl
  | cons e rest ih =>
    obtain ⟨hlt, hrest⟩ := List.pairwise_cons.mp hsorted
    obtain ⟨hhas, hothers⟩ := List.forall_mem_cons.mp hhas
    rw [all]
    rcases shape_resourceScript host t c e.1 e.2 with hclear | ⟨e', hfailing⟩ | ⟨drift, hsingle⟩
    · rw [hclear, clear_append]
      exact ih hrest hothers
    · rw [hfailing]
      exact isFeasible_of_no_requests rfl
    · rw [hsingle]
      refine IsFeasible.append (.remove hhas (.nil _)) (ih hrest fun e' he' => ?_)
      -- the entries still to come have other names
      have hne : e'.1 ≠ e.1 := fun heq => absurd (hlt e' he') (by rw [heq]; exact String.lt_irrefl _)
      rw [Dict.contains, Dict.get?_erase, if_neg hne]
      exact hothers e' he'

theorem isSpellable_resources (hc : c.IsNamed) : (resourcesScript host t c).IsSpellable c.name := by
  refine isSpellable_all fun e he => ?_
  rcases shape_resourceScript host t c e.1 e.2 with hclear | ⟨e', hfailing⟩ | ⟨drift, hsingle⟩
  · rw [hclear]
    exact isSpellable_clear
  · rw [hfailing]
    exact isSpellable_failing e'
  · rw [hsingle]
    exact isSpellable_single
      ⟨rfl, Request.isSpellable_remove hc.name (hc.devices _ _ (Dict.get?_eq_some_iff.mpr he))⟩

/-! ### Nodes -/

theorem requests_nodes (c : Container) (reason : String) (nodes : List String) :
    (all (nodeScript c reason) nodes).requests =
      (nodes.filter fun node => !c.hasDevice node).map fun node =>
        .addDevice c.name node (.passThrough node) := by
  induction nodes with
  | nil => rfl
  | cons node rest ih =>
    rw [all, requests_append, ih]
    by_cases hhas : c.hasDevice node = true
    · rw [nodeScript_of_has hhas]
      simp [hhas, clear, requests, moves]
    · rw [nodeScript_of_lacks (Bool.eq_false_iff.mpr hhas)]
      simp [hhas, single, requests, moves, Move.request?]

theorem isFeasible_nodes {reason : String} {nodes : List String} (hnodup : nodes.Nodup)
    {devices : Dict String Device}
    (hsame : ∀ node ∈ nodes, devices.contains node = c.hasDevice node) :
    (all (nodeScript c reason) nodes).IsFeasible c.name devices := by
  rw [IsFeasible, requests_nodes]
  refine refits_additions _ _ (hnodup.filter _) fun node hnode => ?_
  obtain ⟨hmem, hlacks⟩ := List.mem_filter.mp hnode
  rw [hsame node hmem]
  simpa using hlacks

theorem isFeasible_nodesScript {reason dir : String} {isWanted : String → Bool}
    {devices : Dict String Device} (honce : host.ListsOnce t dir isWanted)
    (hsame : ∀ k, k ≠ libraryDevice → devices.contains k = c.hasDevice k) :
    (nodesScript c reason (host.nodes t dir isWanted)).IsFeasible c.name devices := by
  cases hnodes : host.nodes t dir isWanted with
  | error e => exact isFeasible_of_no_requests rfl
  | ok nodes =>
    refine isFeasible_nodes (honce nodes hnodes) fun node hnode => hsame node ?_
    exact ne_libraryDevice (Tree.slash_of_mem_nodes hnodes hnode)

theorem isSpellable_passThrough {container node : String} (hcontainer : IsArgument container)
    (hnode : IsArgument node) :
    (Request.addDevice container node (.passThrough node)).IsSpellable := by
  refine Request.isSpellable_add hcontainer hnode (by decide) (by simp) ?_
  simp only [List.forall_mem_cons, List.not_mem_nil, false_implies, implies_true, and_true]
  exact ⟨⟨by decide, Device.isArgument_withoutLeadingSlashes hnode⟩, by decide, by decide⟩

theorem isSpellable_nodesScript {reason dir : String} {isWanted : String → Bool}
    (hc : c.IsNamed) (hproper : t.IsProper)
    (hdir : IsArgument (HostView.withoutTrailingSlashes dir)) :
    (nodesScript c reason (host.nodes t dir isWanted)).IsSpellable c.name := by
  cases hnodes : host.nodes t dir isWanted with
  | error e => exact isSpellable_failing _
  | ok nodes =>
    refine isSpellable_all fun node hnode => ?_
    obtain ⟨p, m, name, n, -, hn, -, -, rfl⟩ := (Tree.mem_nodes_iff hnodes).mp hnode
    have hnode : IsArgument (HostView.withoutTrailingSlashes dir ++ "/" ++ name.shown) :=
      (hdir.append (by decide)).append (RawText.nul_notMem_shown (hproper.name hn).no_nul)
    unfold nodeScript
    split
    · exact isSpellable_clear
    · exact isSpellable_single ⟨rfl, isSpellable_passThrough hc.name hnode⟩

theorem isFeasible_renderNodes (host : HostView) (t : Tree) (c : Container) :
    (renderNodesScript host t c).IsFeasible c.name c.devices := by
  unfold renderNodesScript
  split
  · exact isFeasible_of_no_requests rfl
  · exact isFeasible_nodesScript (listsOnce_renderNodes host t) fun _ _ => rfl

theorem isSpellable_renderNodes (hc : c.IsNamed) (hproper : t.IsProper) :
    (renderNodesScript host t c).IsSpellable c.name := by
  unfold renderNodesScript
  split
  · exact isSpellable_clear
  · exact isSpellable_nodesScript hc hproper (by decide)

/-! ### The graphics driver -/

/-- Where all names are texts, each node of the driver is listed once. -/
theorem nodesOnce_of_hasTexts (h : t.HasTexts) (host : HostView) (container : String) :
    NodesOnce host t container := by
  refine Tree.HasTexts.listsOnce ?_ host driverNodeDir isDriverNode
  unfold withConfig
  split
  · next q hgap => exact h.put_gap (RawText.isText_ofText _) hgap _ _
  · exact h

theorem isFeasible_libraries (c : Container) (driver : Driver) :
    ∃ devices, Refits c.name (librariesScript c driver).requests c.devices devices ∧
      ∀ k, k ≠ libraryDevice → devices.contains k = c.hasDevice k := by
  have hadd (devices : Dict String Device) (hlacks : devices.contains libraryDevice = false) :
      Refits c.name [.addDevice c.name libraryDevice (libraryMountOf driver)] devices
        (devices.insert libraryDevice (libraryMountOf driver)) := .add hlacks (.nil _)
  cases hdevice : c.devices.get? libraryDevice with
  | none =>
    unfold librariesScript
    dsimp only
    rw [hdevice]
    refine ⟨_, hadd c.devices (by rw [Dict.contains, hdevice]; rfl), fun k hk => ?_⟩
    rw [Dict.contains, Dict.get?_insert, if_neg hk]
    rfl
  | some device =>
    unfold librariesScript
    dsimp only
    rw [hdevice]
    dsimp only
    split
    · exact ⟨c.devices, .nil _, fun _ _ => rfl⟩
    · have hgone : (c.devices.erase libraryDevice).contains libraryDevice = false := by
        rw [Dict.contains, Dict.get?_erase, if_pos rfl]
        rfl
      refine ⟨_, .remove (by rw [Dict.contains, hdevice]; rfl) (hadd _ hgone), fun k hk => ?_⟩
      rw [Dict.contains, Dict.get?_insert, if_neg hk, Dict.get?_erase, if_neg hk]
      rfl

theorem isFeasible_driverParts (honce : NodesOnce host t c.name) (driver : Driver) :
    (driverPartsScript host t c driver).IsFeasible c.name c.devices := by
  obtain ⟨devices, hlibraries, hsame⟩ := isFeasible_libraries c driver
  have hconfig : (configScript host t c).requests = [] := by
    unfold configScript
    split <;> rfl
  refine IsFeasible.append hlibraries (IsFeasible.append ?_ (isFeasible_nodesScript honce hsame))
  rw [hconfig]
  exact .nil devices

theorem isSpellable_libraries (hc : c.IsNamed) (hlibraries : IsArgument driver.libraries) :
    (librariesScript c driver).IsSpellable c.name := by
  have hremove : (Request.removeDevice c.name libraryDevice).IsSpellable :=
    Request.isSpellable_remove hc.name (by decide)
  have hadd : (Request.addDevice c.name libraryDevice (libraryMountOf driver)).IsSpellable := by
    refine Request.isSpellable_add hc.name (by decide) (by decide) (by simp) ?_
    simp only [List.forall_mem_cons, List.not_mem_nil, false_implies, implies_true, and_true]
    exact ⟨⟨by decide, hlibraries⟩, ⟨by decide, by decide⟩, by decide, by decide⟩
  unfold librariesScript
  dsimp only
  split
  · split
    · exact isSpellable_clear
    · intro m hm
      rw [moves_single, List.mem_pair] at hm
      rcases hm with rfl | rfl
      · exact ⟨rfl, hremove⟩
      · exact ⟨rfl, hadd⟩
  · exact isSpellable_single ⟨rfl, hadd⟩

theorem isSpellable_createConfig (host : HostView) (container : String) :
    (createConfig host container).IsSpellable container := by
  intro change hchange
  rcases List.mem_pair.mp hchange with rfl | rfl
  · exact RawText.isText_ofText _
  · trivial

theorem isSpellable_driverParts (hc : c.IsNamed) (hproper : t.IsProper)
    (hlibraries : IsArgument driver.libraries) :
    (driverPartsScript host t c driver).IsSpellable c.name := by
  have hconfig : (configScript host t c).IsSpellable c.name := by
    unfold configScript
    split
    · exact isSpellable_clear
    · exact isSpellable_single (isSpellable_createConfig host c.name)
    · exact isSpellable_failing _
  have hproper' : (withConfig host t c.name).IsProper := by
    unfold withConfig
    split
    · next q hgap => exact hproper.put_gap hgap rfl
    · exact hproper
  exact (isSpellable_libraries hc hlibraries).append
    (hconfig.append (isSpellable_nodesScript hc hproper' (by decide)))

variable {known : Except IoError (Option Driver)}

theorem isFeasible_driverScript (honce : NodesOnce host t c.name) :
    (driverScript host t known c).IsFeasible c.name c.devices := by
  unfold driverScript
  split
  · split
    · exact isFeasible_driverParts honce _
    · exact isFeasible_of_no_requests rfl
    · exact isFeasible_of_no_requests rfl
  · exact isFeasible_of_no_requests rfl
  · exact isFeasible_of_no_requests rfl

theorem isSpellable_driverScript (hc : c.IsNamed) (hproper : t.IsProper)
    (hlibraries : ∀ driver, known = .ok (some driver) → IsArgument driver.libraries) :
    (driverScript host t known c).IsSpellable c.name := by
  unfold driverScript
  split
  · split
    · exact isSpellable_driverParts hc hproper (hlibraries _ rfl)
    · exact isSpellable_clear
    · exact isSpellable_failing _
  · exact isSpellable_clear
  · exact isSpellable_failing _

end Repair

end BuildTargets
