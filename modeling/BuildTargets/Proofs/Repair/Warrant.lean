/-
  BuildTargets/Proofs/Repair/Warrant.lean
  =======================================
  **What a fix may change in the service.**

  Every request that a repair makes has a *warrant*: it is for the container that
  the repair is run on, and it either gives the container the mount of the
  libraries or a node of the host, or takes away that mount or a device that claims
  what is not there (`Warrant`).  A store loses and gains devices by requests only,
  so what it comes to is bounded by the requests that could be made (`Heeds`).

  A repair works on a container as it was listed, which may be some time ago.  Its
  warrants bound what happens to the container nevertheless, because nobody else
  touches it: so whatever a fix comes to, it amends the containers that it is for,
  and no others (`fix_amends`).
-/
import BuildTargets.Proofs.Repair.Compliance
import BuildTargets.Proofs.Repair.Progress
import BuildTargets.Proofs.Repair.Script

namespace BuildTargets

/-! ### Requests for devices -/

namespace Request

/-- A request for a device. -/
inductive IsEdit : Request → Prop where
  | add (n k : String) (d : Device) : IsEdit (.addDevice n k d)
  | remove (n k : String) : IsEdit (.removeDevice n k)

/-- What carrying a request out makes of the devices of its container.  A device
    that is there is not replaced. -/
def effect : Request → Dict String Device → Dict String Device
  | addDevice _ k d, devices => if devices.contains k then devices else devices.insert k d
  | removeDevice _ k, devices => devices.erase k
  | stop _ _, devices => devices
  | delete _, devices => devices

variable {request : Request} {devices : Dict String Device} {k : String} {d : Device}

theorem lost_of_effect (hd : devices.get? k = some d)
    (hlost : (request.effect devices).get? k ≠ some d) :
    request = .removeDevice request.container k := by
  cases request with
  | addDevice n k' d' =>
    rw [effect] at hlost
    split at hlost
    · exact absurd hd hlost
    · next hnone =>
      rw [Dict.get?_insert] at hlost
      split at hlost
      · next hk =>
        subst hk
        rw [Dict.contains, hd] at hnone
        exact absurd rfl hnone
      · exact absurd hd hlost
  | removeDevice n k' =>
    rw [effect, Dict.get?_erase] at hlost
    split at hlost
    · next hk =>
      subst hk
      rfl
    · exact absurd hd hlost
  | stop n force => exact absurd hd hlost
  | delete n => exact absurd hd hlost

theorem gained_of_effect (hd : (request.effect devices).get? k = some d)
    (hnew : devices.get? k ≠ some d) : request = .addDevice request.container k d := by
  cases request with
  | addDevice n k' d' =>
    rw [effect] at hd
    split at hd
    · exact absurd hd hnew
    · rw [Dict.get?_insert] at hd
      split at hd
      · next hk =>
        subst hk
        cases hd
        rfl
      · exact absurd hd hnew
  | removeDevice n k' =>
    rw [effect, Dict.get?_erase] at hd
    split at hd
    · cases hd
    · exact absurd hd hnew
  | stop n force => exact absurd hd hnew
  | delete n => exact absurd hd hnew

end Request

/-! ### What a store comes to -/

namespace Store

variable {May : Request → Prop} {s s' s'' : Store}

/-- From `s` to `s'` only requests of a class have been made. -/
def MakesOnly (May : Request → Prop) (s s' : Store) : Prop :=
  ∃ made, s'.requests = s.requests ++ made ∧ ∀ request ∈ made, May request

namespace MakesOnly

theorem of_requests_eq (h : s'.requests = s.requests) : MakesOnly May s s' :=
  ⟨[], by rw [h, List.append_nil], fun _ hmem => absurd hmem List.not_mem_nil⟩

theorem trans (h : MakesOnly May s s') (h' : MakesOnly May s' s'') : MakesOnly May s s'' := by
  obtain ⟨made, hrequests, hmay⟩ := h
  obtain ⟨made', hrequests', hmay'⟩ := h'
  refine ⟨made ++ made', by rw [hrequests', hrequests, List.append_assoc], fun request hmem => ?_⟩
  rcases List.mem_append.mp hmem with hmem | hmem
  · exact hmay request hmem
  · exact hmay' request hmem

theorem mono {May' : Request → Prop} (h : MakesOnly May s s')
    (himp : ∀ request, May request → May' request) : MakesOnly May' s s' := by
  obtain ⟨made, hrequests, hmay⟩ := h
  exact ⟨made, hrequests, fun request hmem => himp request (hmay request hmem)⟩

end MakesOnly

/-- From `s` to `s'` only requests of a class have been made, and everything that
    has changed are devices that such requests name. -/
structure Heeds (May : Request → Prop) (s s' : Store) : Prop where
  asked : MakesOnly May s s'
  edited : ∀ {n c}, s.containers.get? n = some c →
    ∃ devices, s'.containers.get? n = some { c with devices := devices } ∧
      (∀ k d, c.devices.get? k = some d → devices.get? k ≠ some d → May (.removeDevice n k)) ∧
      ∀ k d, devices.get? k = some d → c.devices.get? k ≠ some d → May (.addDevice n k d)
  none_new : ∀ {n}, s.containers.get? n = none → s'.containers.get? n = none

namespace Heeds

theorem of_asked (hcontainers : s'.containers = s.containers) (hasked : MakesOnly May s s') :
    Heeds May s s' where
  asked := hasked
  edited := by
    intro n c hc
    refine ⟨c.devices, by rw [hcontainers]; exact hc, fun k d hd hlost => ?_, fun k d hd hnew => ?_⟩
    · exact absurd hd hlost
    · exact absurd hd hnew
  none_new := fun hnone => by rw [hcontainers]; exact hnone

theorem refl (May : Request → Prop) (s : Store) : Heeds May s s :=
  of_asked rfl (.of_requests_eq rfl)

theorem trans (h : Heeds May s s') (h' : Heeds May s' s'') : Heeds May s s'' where
  asked := h.asked.trans h'.asked
  edited := by
    intro n c hc
    obtain ⟨devices, hc', hlost, hgained⟩ := h.edited hc
    obtain ⟨devices', hc'', hlost', hgained'⟩ := h'.edited hc'
    refine ⟨devices', hc'', fun k d hd hgone => ?_, fun k d hd hnew => ?_⟩
    · by_cases hmid : devices.get? k = some d
      · exact hlost' k d hmid hgone
      · exact hlost k d hd hmid
    · by_cases hmid : devices.get? k = some d
      · exact hgained k d hmid hnew
      · exact hgained' k d hd hmid
  none_new := fun hnone => h'.none_new (h.none_new hnone)

theorem mono {May' : Request → Prop} (h : Heeds May s s')
    (himp : ∀ request, May request → May' request) : Heeds May' s s' where
  asked := h.asked.mono himp
  edited := by
    intro n c hc
    obtain ⟨devices, hc', hlost, hgained⟩ := h.edited hc
    exact ⟨devices, hc', fun k d hd hgone => himp _ (hlost k d hd hgone),
      fun k d hd hnew => himp _ (hgained k d hd hnew)⟩
  none_new := h.none_new

/-- A request for a device changes what it names. -/
theorem of_effect {request : Request} {c : Container} (hmay : May request)
    (hc : s.containers.get? request.container = some c)
    (hcontainers : s'.containers = s.containers.insert request.container
      { c with devices := request.effect c.devices }) (hrequests : s'.requests = s.requests) :
    Heeds May s s' where
  asked := .of_requests_eq hrequests
  edited := by
    intro n c' hc'
    rw [hcontainers, Dict.get?_insert]
    split
    · next hn =>
      subst hn
      rw [hc, Option.some.injEq] at hc'
      subst hc'
      refine ⟨_, rfl, fun k d hd hlost => ?_, fun k d hd hnew => ?_⟩
      · rw [← Request.lost_of_effect hd hlost]
        exact hmay
      · rw [← Request.gained_of_effect hd hnew]
        exact hmay
    · refine ⟨c'.devices, hc', fun k d hd hlost => ?_, fun k d hd hnew => ?_⟩
      · exact absurd hd hlost
      · exact absurd hd hnew
  none_new := by
    intro n hnone
    rw [hcontainers, Dict.get?_insert]
    split
    · next hn =>
      rw [← hn, hnone] at hc
      cases hc
    · exact hnone

/-- No other container than the one of the requests changes. -/
theorem untouched (h : Heeds May s s') {n : String}
    (hn : ∀ request, May request → request.container ≠ n) :
    s'.containers.get? n = s.containers.get? n := by
  cases hc : s.containers.get? n with
  | none => exact h.none_new hc
  | some c =>
    obtain ⟨devices, hc', hlost, hgained⟩ := h.edited hc
    have hdevices : devices = c.devices := by
      refine Dict.ext_get? fun k => Option.ext fun d => ⟨fun hd => ?_, fun hd => ?_⟩
      · by_contra hnew
        exact hn _ (hgained k d hd hnew) rfl
      · by_contra hgone
        exact hn _ (hlost k d hd hgone) rfl
    rw [hc', hdevices]

end Heeds

theorem apply_eq_effect {request : Request} {c : Container} (hedit : request.IsEdit)
    (hc : s.containers.get? request.container = some c) :
    (s.apply request).2.containers =
      s.containers.insert request.container { c with devices := request.effect c.devices } := by
  cases hedit with
  | add n k d =>
    have hn : s.containers.get? n = some c := hc
    rw [apply_addDevice hn, Request.effect]
    unfold Container.hasDevice
    split
    · exact (Dict.insert_of_get? hc).symm
    · rfl
  | remove n k =>
    have hn : s.containers.get? n = some c := hc
    rw [apply_removeDevice hn, Request.effect]
    unfold Container.hasDevice
    split
    · rfl
    · next hnone =>
      have hnone' : c.devices.get? k = none := by simpa [Dict.contains] using hnone
      rw [Dict.erase_of_get? hnone']
      exact (Dict.insert_of_get? hc).symm

end Store

open Store (Heeds)

theorem heeds_perform {May : Request → Prop} {ctx : Context} {request : Request}
    (hedit : request.IsEdit) (hmay : May request) :
    Keeps (fun w w' : World Store => w.service.Heeds May w'.service)
      (World.perform ctx request) := by
  intro w
  rcases w.service.refused_or_accepted request with hrefused | ⟨hu, hc⟩
  · obtain ⟨e, -, hrun⟩ := World.run_perform_of_refused ctx _ hrefused
    rw [hrun]
    exact .refl May w.service
  · obtain ⟨c, hc'⟩ := Option.isSome_iff_exists.mp hc
    have hend : (stateOf ((World.perform ctx request).run w)).service =
        ((w.service.logged request).answer ctx.patience request).2 := by
      rw [World.run_perform_of_accepted hu hc]
      obtain ⟨result, s⟩ := (w.service.logged request).answer ctx.patience request
      cases result <;> rfl
    have hlogged : w.service.Heeds May (w.service.logged request) := by
      refine .of_asked rfl ⟨[request], rfl, fun other hmem => ?_⟩
      rw [List.mem_singleton.mp hmem]
      exact hmay
    rw [hend]
    rcases Store.snd_answer (w.service.logged request) ctx.patience request with hs | hs
    · rw [hs]
      exact hlogged
    · rw [hs]
      refine hlogged.trans (.of_effect hmay hc' ?_ (Store.requests_apply _ _))
      exact Store.apply_eq_effect hedit hc'

namespace Repair

variable {ctx : Context} {mode : Mode} {host : HostView} {t t' t'' : Tree} {c : Container}
  {w w' w'' : World Store}

/-! ### Warrants -/

/-- A logical path is that of a node in a directory, under a name with a text of a
    class. -/
def IsNodeIn (host : HostView) (t : Tree) (dir : String) (P : String → Prop) (path : String) :
    Prop :=
  ∃ p m name n, t.stat (host.path dir) = .ok (p, .dir m) ∧ t.node? (p ++ [name]) = some n ∧
    n.isDir = false ∧ P name.shown ∧ path = dir ++ "/" ++ name.shown

/-- The names under which a container may be given a device. -/
inductive MayGain (host : HostView) (t : Tree) : String → Prop where
  | libraries : MayGain host t "nv-bin"
  | renderNode {k} (h : IsNodeIn host t "/dev/dri" IsRenderName k) : MayGain host t k
  | driverNode {k} (h : IsNodeIn host t "/dev" IsDriverName k) : MayGain host t k

/-- The devices that may be taken from a container. -/
inductive MayLose (host : HostView) (t : Tree) : String → Device → Prop where
  | libraries (d : Device) : MayLose host t "nv-bin" d
  /-- What the device claims is missing. -/
  | missing {k d path} (hclaims : d.Claims path)
      (habsent : t.stat (host.path path) = .error .notFound) : MayLose host t k d

/-- The requests that may be made for a container while the tree goes from `t` to
    `t'`. -/
inductive Warrant (host : HostView) (t t' : Tree) (c : Container) : Request → Prop where
  | gain {k} (h : MayGain host t' k) (d : Device) : Warrant host t t' c (.addDevice c.name k d)
  | lose {k d} (hd : c.devices.get? k = some d) (h : MayLose host t k d) :
      Warrant host t t' c (.removeDevice c.name k)

theorem Warrant.isEdit {request : Request} (h : Warrant host t t' c request) :
    request.IsEdit := by
  cases h with
  | gain h d => exact .add ..
  | lose hd h => exact .remove ..

theorem Warrant.container {request : Request} (h : Warrant host t t' c request) :
    request.container = c.name := by
  cases h with
  | gain h d => rfl
  | lose hd h => rfl

theorem Warrant.mayGain {n k : String} {d : Device} (h : Warrant host t t' c (.addDevice n k d)) :
    MayGain host t' k := by
  cases h with
  | gain h => exact h

theorem Warrant.mayLose {n k : String} {d : Device} (h : Warrant host t t' c (.removeDevice n k))
    (hd : c.devices.get? k = some d) : MayLose host t k d := by
  cases h with
  | lose hd' h =>
    rw [hd, Option.some.injEq] at hd'
    rw [hd']
    exact h

theorem IsNodeIn.grows {dir path : String} {P : String → Prop} {m : Nat}
    (h : IsNodeIn host t dir P path) (hg : t.Grows m t') : IsNodeIn host t' dir P path := by
  obtain ⟨p, k, name, n, hstat, hn, hdir, hname, rfl⟩ := h
  obtain ⟨n', hstat', rfl | ⟨-, rfl⟩⟩ := hg.stat hstat
  · exact ⟨p, k, name, n, hstat', hg.not_dir hn hdir, hdir, hname, rfl⟩
  · exact ⟨p, m, name, n, hstat', hg.not_dir hn hdir, hdir, hname, rfl⟩

theorem MayGain.grows {k : String} {m : Nat} (h : MayGain host t k) (hg : t.Grows m t') :
    MayGain host t' k := by
  cases h with
  | libraries => exact .libraries
  | renderNode h => exact .renderNode (h.grows hg)
  | driverNode h => exact .driverNode (h.grows hg)

theorem MayLose.back {k : String} {d : Device} {m : Nat} (h : MayLose host t' k d)
    (hg : t.Grows m t') : MayLose host t k d := by
  cases h with
  | libraries => exact .libraries d
  | missing hclaims habsent => exact .missing hclaims (hg.absent_back habsent)

/-- A warrant holds from before on and until later. -/
theorem Warrant.widen {t₀ t₁ : Tree} {m : Nat} {request : Request}
    (h : Warrant host t t' c request) (hback : t₀.Grows m t) (hg : t'.Grows m t₁) :
    Warrant host t₀ t₁ c request := by
  cases h with
  | gain h d => exact .gain (h.grows hg) d
  | lose hd h => exact .lose hd (h.back hback)

/-- The nodes that are listed are those of the directory. -/
theorem isNodeIn_iff_listed {dir node : String} {isWanted : String → Bool} {P : String → Prop}
    {nodes : List String} (hdir : HostView.withoutTrailingSlashes dir = dir)
    (hwanted : ∀ name, isWanted name = true ↔ P name)
    (hnodes : host.nodes t dir isWanted = .ok nodes) :
    IsNodeIn host t dir P node ↔ node ∈ nodes := by
  rw [Tree.mem_nodes_iff hnodes, hdir]
  constructor
  · rintro ⟨p, m, name, n, hstat, hn, hnotDir, hname, rfl⟩
    exact ⟨p, m, name, n, hstat, hn, (hwanted name.shown).mpr hname, hnotDir, rfl⟩
  · rintro ⟨p, m, name, n, hstat, hn, hname, hnotDir, rfl⟩
    exact ⟨p, m, name, n, hstat, hn, hnotDir, (hwanted name.shown).mp hname, rfl⟩

/-! ### The requests of the scripts -/

open Script

/-- Whatever a script asks for has a warrant. -/
def IsWarranted (host : HostView) (t : Tree) (c : Container) (s : Script) : Prop :=
  ∀ request, .ask request ∈ s.moves → Warrant host t t c request

theorem isWarranted_accessScript : IsWarranted host t c (accessScript host t c) := by
  intro request hmem
  unfold accessScript at hmem
  split at hmem
  · split at hmem
    · cases hmem
    · simp at hmem
  · cases hmem

theorem isWarranted_resourcesScript : IsWarranted host t c (resourcesScript host t c) := by
  intro request hmem
  obtain ⟨⟨k, d⟩, hd, hmem⟩ := mem_moves_all hmem
  unfold resourceScript at hmem
  split at hmem
  · cases hmem
  · next path hpath =>
    split at hmem
    · cases hmem
    · next habsent =>
      rw [moves_single, List.mem_singleton, Move.ask.injEq] at hmem
      subst hmem
      have hmissing := Tree.isPresent_eq_false_iff.mp habsent
      exact .lose (Dict.get?_eq_some_iff.mpr hd) (.missing (Device.claims_iff.mpr hpath) hmissing)
    · cases hmem

theorem isWarranted_nodesScript {reason : String} {listing : Except IoError (List String)}
    (hgain : ∀ nodes, listing = .ok nodes → ∀ node ∈ nodes, MayGain host t node) :
    IsWarranted host t c (nodesScript c reason listing) := by
  intro request hmem
  cases listing with
  | error e => cases hmem
  | ok nodes =>
    obtain ⟨node, hnode, hmem⟩ := mem_moves_all hmem
    unfold nodeScript at hmem
    split at hmem
    · cases hmem
    · rw [moves_single, List.mem_singleton, Move.ask.injEq] at hmem
      subst hmem
      exact .gain (hgain nodes rfl node hnode) _

theorem isWarranted_renderNodesScript : IsWarranted host t c (renderNodesScript host t c) := by
  unfold renderNodesScript
  split
  · exact fun request hmem => absurd hmem List.not_mem_nil
  · refine isWarranted_nodesScript fun nodes hnodes node hnode => .renderNode ?_
    exact (isNodeIn_iff_listed (by decide) (fun _ => isRenderNode_iff) hnodes).mpr hnode

theorem isWarranted_driverNodes : IsWarranted host t c
    (nodesScript c "container is missing Nvidia device "
      (host.nodes t driverNodeDir isDriverNode)) := by
  refine isWarranted_nodesScript fun nodes hnodes node hnode => .driverNode ?_
  exact (isNodeIn_iff_listed (by decide) (fun _ => isDriverNode_iff) hnodes).mpr hnode

theorem isWarranted_librariesScript (driver : Driver) :
    IsWarranted host t c (librariesScript c driver) := by
  have hadd : Warrant host t t c
      (.addDevice c.name libraryDevice (libraryMountOf driver)) := .gain .libraries _
  intro request hmem
  unfold librariesScript at hmem
  split at hmem
  · next device hd =>
    split at hmem
    · cases hmem
    · simp only [moves_single, List.mem_cons, List.not_mem_nil, or_false, Move.ask.injEq] at hmem
      rcases hmem with rfl | rfl
      · exact .lose hd (.libraries device)
      · exact hadd
  · rw [moves_single, List.mem_singleton, Move.ask.injEq] at hmem
    subst hmem
    exact hadd

theorem isWarranted_configScript : IsWarranted host t c (configScript host t c) := by
  intro request hmem
  unfold configScript at hmem
  split at hmem
  · cases hmem
  · simp [createConfig] at hmem
  · cases hmem

/-! ### Repairs of one container -/

/-- From `w` to `w'` only requests with a warrant for the container have been
    made. -/
structure Alters (host : HostView) (c : Container) (w w' : World Store) : Prop where
  onward : w.Onward w'
  heeds : w.service.Heeds (Warrant host w.tree w'.tree c) w'.service

namespace Alters

theorem refl (host : HostView) (c : Container) (w : World Store) : Alters host c w w :=
  ⟨.refl w, .refl _ w.service⟩

theorem trans (h : Alters host c w w') (h' : Alters host c w' w'') : Alters host c w w'' where
  onward := h.onward.trans h'.onward
  heeds := by
    have hbefore := h.heeds.mono fun _ hw => hw.widen (.refl accessibleMode _) h'.onward.tree
    have hafter := h'.heeds.mono fun _ hw => hw.widen h.onward.tree (.refl accessibleMode _)
    exact hbefore.trans hafter

theorem bind {x y : Action (World Store) Unit} (hx : Keeps (Alters host c) x)
    (hy : Keeps (Alters host c) y) : Keeps (Alters host c) (x >>= fun _ => y) :=
  Keeps.bind (R := Alters host c) (fun _ _ _ h h' => h.trans h') hx fun _ => hy

/-- Nothing but the container changes. -/
theorem others (h : Alters host c w w') {n : String} (hn : n ≠ c.name) :
    w'.stored? n = w.stored? n :=
  h.heeds.untouched fun _ hw heq => hn (heq.symm.trans hw.container)

end Alters

theorem keeps_service_changes (changes : List HostChange) (explain : IoError → Failure) :
    Keeps (fun w w' : World Store => w'.service = w.service)
      (changes.forM (World.change · explain)) := by
  refine Keeps.forM (R := fun w w' : World Store => w'.service = w.service) (fun _ => rfl)
    (fun _ _ _ h h' => h'.trans h) fun change _ w => ?_
  rw [World.run_change]
  split <;> rfl

theorem heeds_follow {May : Request → Prop} {s : Script}
    (hs : ∀ request, .ask request ∈ s.moves → request.IsEdit ∧ May request) :
    Keeps (fun w w' : World Store => w.service.Heeds May w'.service) (s.follow ctx mode) := by
  refine keeps_follow (R := fun w w' : World Store => w.service.Heeds May w'.service)
    (fun w => .refl May w.service) (fun _ _ _ h h' => h.trans h') s fun m hm => ?_
  cases m with
  | ask request => exact heeds_perform (hs request hm).1 (hs request hm).2
  | reshape changes explain =>
    intro w
    rw [Move.make, keeps_service_changes changes explain w]
    exact .refl May w.service

theorem alters_of_follows {x : Action (World Store) Unit} (hon : GoesOnward x)
    (hrun : ∀ w, ∃ s : Script, IsWarranted host w.tree c s ∧
      x.run w = (s.follow ctx mode).run w) : Keeps (Alters host c) x := by
  intro w
  obtain ⟨s, hs, hrun⟩ := hrun w
  have hheeds : w.service.Heeds (Warrant host w.tree w.tree c) (stateOf (x.run w)).service := by
    rw [hrun]
    exact heeds_follow (fun request hmem => ⟨(hs request hmem).isEdit, hs request hmem⟩) w
  exact ⟨hon w, hheeds.mono fun _ hw => hw.widen (.refl accessibleMode _) (hon w).tree⟩

theorem alters_keepDriver (seeker : String) :
    Keeps (Alters ctx.host c) (keepDriver seeker ctx mode c) := by
  have hlibraries (driver : Driver) : Keeps (Alters ctx.host c) (keepLibraries ctx mode c driver) :=
    alters_of_follows (goesOnward_keepLibraries driver) fun w =>
      ⟨_, isWarranted_librariesScript driver, keepLibraries_follows w c driver⟩
  have hconfig : Keeps (Alters ctx.host c) (keepLoaderConfig ctx mode c) :=
    alters_of_follows goesOnward_keepLoaderConfig fun w =>
      ⟨_, isWarranted_configScript, keepLoaderConfig_follows w c⟩
  have hnodes : Keeps (Alters ctx.host c) (keepDriverNodes ctx mode c) :=
    alters_of_follows goesOnward_keepDriverNodes fun w =>
      ⟨_, isWarranted_driverNodes, keepDriverNodes_follows w c⟩
  have hparts (driver : Driver) : Keeps (Alters ctx.host c) (keepDriverParts ctx mode c driver) :=
    Alters.bind (hlibraries driver) (Alters.bind hconfig hnodes)
  intro w
  rw [run_keepDriver]
  split
  · split
    · next driver hknown =>
      have hrecalled : Alters ctx.host c w (remembering w seeker driver) :=
        ⟨onward_remembering hknown, .refl _ w.service⟩
      exact hrecalled.trans (hparts driver _)
    · exact .refl ctx.host c w
    · exact .refl ctx.host c w
  · exact .refl ctx.host c w
  · exact .refl ctx.host c w

variable {seeker : String} {r : Repair Store}

theorem alters_run (hr : r ∈ standard seeker) (ctx : Context) (mode : Mode) (c : Container) :
    Keeps (Alters ctx.host c) (r.run ctx mode c) := by
  intro w
  simp only [standard, List.mem_cons, List.not_mem_nil, or_false] at hr
  rcases hr with rfl | rfl | rfl | rfl
  · exact alters_of_follows goesOnward_keepAccess (fun w =>
      ⟨_, isWarranted_accessScript, keepAccess_follows w c⟩) w
  · exact alters_of_follows (GoesOnward.forM fun e _ => goesOnward_keepResource e.1 e.2) (fun w =>
      ⟨_, isWarranted_resourcesScript, keepResources_follows w c⟩) w
  · exact alters_of_follows goesOnward_keepRenderNodes (fun w =>
      ⟨_, isWarranted_renderNodesScript, keepRenderNodes_follows w c⟩) w
  · exact alters_keepDriver seeker w

end Repair

end BuildTargets
