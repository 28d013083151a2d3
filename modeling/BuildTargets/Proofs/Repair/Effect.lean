/-
  BuildTargets/Proofs/Repair/Effect.lean
  ======================================
  **What a run on one container comes to, and nothing besides.**

  On a service that carries out what it is asked, a run on a container has an
  *effect*: how it ends, what has been done in which order, the devices that the
  container has then, and the tree.  `HasEffect` says that a run has an effect and
  that the rest is as it was.  Effects are put together as the runs are
  (`HasEffect.andThen`, `HasEffect.cut`).

  A script that only asks has the effect of its requests, if they can be carried out
  in their order (`hasEffect_follow`).  What those requests make of the devices can
  be said for each name on its own (`Refits.get?_removals`, `Refits.get?_additions`).
-/
import BuildTargets.Proofs.Repair.Feasibility
import BuildTargets.Proofs.Repair.Progress
import BuildTargets.Proofs.Store.History

namespace BuildTargets

/-- The service carries out what it is asked, and nobody gives up waiting for it. -/
structure Willing (ctx : Context) (w : World Store) : Prop where
  reachable : w.service.unreachable = false
  faultless : w.service.failing = none
  patient : ctx.patience.cancelled = false

namespace Repair

/-- What a run on one container comes to. -/
structure Effect where
  result : Except Failure Unit
  deeds : List Deed
  devices : Dict String Device
  tree : Tree

/-- A run that began in `w` has an effect on the container `c`, and no other. -/
structure HasEffect (c : Container) (w : World Store)
    (r : EStateM.Result Failure (World Store) Unit) (e : Effect) : Prop where
  result : resultOf r = e.result
  journal : (stateOf r).journal = w.journal ++ e.deeds
  requests : (stateOf r).service.requests =
    w.service.requests ++ e.deeds.filterMap Deed.request?
  containers : ∀ name, (stateOf r).stored? name =
    if name = c.name then some { c with devices := e.devices } else w.stored? name
  tree : (stateOf r).tree = e.tree
  reachable : (stateOf r).service.unreachable = w.service.unreachable
  failing : (stateOf r).service.failing = w.service.failing

variable {ctx : Context} {c : Container} {w : World Store} {x y : Action (World Store) Unit}
variable {r : EStateM.Result Failure (World Store) Unit} {e : Effect} {deeds : List Deed}
variable {devices : Dict String Device} {tree : Tree}

namespace HasEffect

/-- A run that leaves everything as it was. -/
theorem idle (hc : w.stored? c.name = some c) (hstate : stateOf r = w) :
    HasEffect c w r ⟨resultOf r, [], c.devices, w.tree⟩ where
  result := rfl
  journal := by simp [hstate]
  requests := by simp [hstate]
  containers := by
    intro name
    by_cases hname : name = c.name
    · simp [hstate, hname, hc]
    · simp [hstate, hname]
  tree := by rw [hstate]
  reachable := by rw [hstate]
  failing := by rw [hstate]

/-- A run that changes the host, and leaves the service alone. -/
theorem reshaped (hc : w.stored? c.name = some c) (changes : List HostChange) (tree : Tree) :
    HasEffect c w
      (.ok () { w with tree := tree, journal := w.journal ++ changes.map .changed })
      ⟨.ok (), changes.map .changed, c.devices, tree⟩ where
  result := rfl
  journal := rfl
  requests := by
    have hnone : (changes.map Deed.changed).filterMap Deed.request? = [] := by
      simp [List.filterMap_map, Function.comp_def, Deed.request?]
    simp [hnone]
  containers := by
    intro name
    by_cases hname : name = c.name
    · simpa [hname, World.stored?] using hc
    · simp [hname, World.stored?]
  tree := rfl
  reachable := rfl
  failing := rfl

/-- What does not count for the effect may be different at the beginning. -/
theorem of_start {w₀ : World Store} (h : HasEffect c w₀ r e) (hservice : w₀.service = w.service)
    (hjournal : w₀.journal = w.journal) : HasEffect c w r e where
  result := h.result
  journal := by rw [h.journal, hjournal]
  requests := by rw [h.requests, hservice]
  containers := by
    intro name
    rw [h.containers, World.stored?, World.stored?, hservice]
  tree := h.tree
  reachable := by rw [h.reachable, hservice]
  failing := by rw [h.failing, hservice]

theorem willing (h : HasEffect c w r e) (hw : Willing ctx w) : Willing ctx (stateOf r) where
  reachable := h.reachable.trans hw.reachable
  faultless := h.failing.trans hw.faultless
  patient := hw.patient

theorem stored (h : HasEffect c w r e) :
    (stateOf r).stored? c.name = some { c with devices := e.devices } := by
  rw [h.containers, if_pos rfl]

/-- One run after another: the second one finds what the first one has left. -/
theorem andThen (hx : HasEffect c w (x.run w) ⟨.ok (), deeds, devices, tree⟩)
    (hy : HasEffect { c with devices := devices } (stateOf (x.run w)) (y.run (stateOf (x.run w)))
      e) :
    HasEffect c w ((x >>= fun _ => y).run w) { e with deeds := deeds ++ e.deeds } := by
  have hrun : (x >>= fun _ => y).run w = y.run (stateOf (x.run w)) := by
    have hresult := hx.result
    rw [EStateM.run_bind]
    cases hr : x.run w with
    | ok u w' => rfl
    | error e w' =>
      rw [hr] at hresult
      cases hresult
  rw [hrun]
  refine ⟨hy.result, ?_, ?_, ?_, hy.tree, ?_, ?_⟩
  · rw [hy.journal, hx.journal, List.append_assoc]
  · rw [hy.requests, hx.requests, List.append_assoc, List.filterMap_append]
  · intro name
    rw [hy.containers, hx.containers]
    by_cases hname : name = c.name
    · simp [hname]
    · simp [hname]
  · exact hy.reachable.trans hx.reachable
  · exact hy.failing.trans hx.failing

/-- A run that fails is not gone on with. -/
theorem cut {failure : Failure}
    (hx : HasEffect c w (x.run w) ⟨.error failure, deeds, devices, tree⟩) :
    HasEffect c w ((x >>= fun _ => y).run w) ⟨.error failure, deeds, devices, tree⟩ := by
  have hresult := hx.result
  cases hr : x.run w with
  | ok u w' =>
    rw [hr] at hresult
    cases hresult
  | error e w' =>
    have hrun : (x >>= fun _ => y).run w = x.run w := by
      rw [EStateM.run_bind, hr]
    rw [hrun]
    exact hx

/-! ### Requests -/

theorem perform {request : Request} (hw : Willing ctx w) (hc : w.stored? c.name = some c)
    (hname : request.container = c.name)
    (hchange : request.change? c = some (some { c with devices := devices })) :
    HasEffect c w ((World.perform ctx request).run w)
      ⟨.ok (), [.asked request], devices, w.tree⟩ := by
  have hcontainer : w.service.containers.get? request.container = some c := by
    rw [hname]
    exact hc
  have hcontains : w.service.containers.contains request.container = true := by
    rw [Dict.contains, hcontainer]
    rfl
  have hfound : (w.service.logged request).containers.get? request.container = some c :=
    hcontainer
  have hfaultless : (w.service.logged request).failing = none := hw.faultless
  have hanswer := Store.answer_of_change? hfaultless hw.patient hfound hchange
  rw [World.run_perform_of_accepted hw.reachable hcontains, hanswer]
  refine ⟨rfl, rfl, rfl, ?_, rfl, rfl, rfl⟩
  intro name
  rw [← hname]
  exact Store.get?_withResult ..

/-- Requests that can be carried out in their order are. -/
theorem asks {requests : List Request} (h : Refits c.name requests c.devices devices)
    (hw : Willing ctx w) (hc : w.stored? c.name = some c) :
    HasEffect c w (((requests.map Move.ask).forM (·.make ctx)).run w)
      ⟨.ok (), requests.map .asked, devices, w.tree⟩ := by
  -- the induction is on the requests, and each of them changes the container
  generalize hname : c.name = name at h
  generalize hbefore : c.devices = before at h
  induction h generalizing c w with
  | nil before =>
    subst hbefore
    exact idle hc rfl
  | @remove k rest before after hhas hrest ih =>
    subst hname hbefore
    have hchange : (Request.removeDevice c.name k).change? c =
        some (some { c with devices := c.devices.erase k }) := if_pos hhas
    have hfirst := perform hw hc rfl hchange
    have hothers := ih (c := { c with devices := c.devices.erase k }) (hfirst.willing hw)
      hfirst.stored rfl rfl
    rw [hfirst.tree] at hothers
    exact hfirst.andThen hothers
  | @add k device rest before after hlacks hrest ih =>
    subst hname hbefore
    have hchange : (Request.addDevice c.name k device).change? c =
        some (some { c with devices := c.devices.insert k device }) := by
      have hnot : ¬c.hasDevice k = true := Bool.eq_false_iff.mp hlacks
      exact if_neg hnot
    have hfirst := perform hw hc rfl hchange
    have hothers := ih (c := { c with devices := c.devices.insert k device })
      (hfirst.willing hw) hfirst.stored rfl rfl
    rw [hfirst.tree] at hothers
    exact hfirst.andThen hothers

/-- A device that the container has already is not added. -/
theorem refused {name : String} (hw : Willing ctx w) (hc : w.stored? c.name = some c)
    (hhas : c.hasDevice name = true) (device : Device) :
    HasEffect c w ((World.perform ctx (.addDevice c.name name device)).run w)
      ⟨.error (.operationFailed ("add device " ++ name ++ " to " ++ c.name)
          ("device " ++ name ++ " already exists")),
        [.asked (.addDevice c.name name device)], c.devices, w.tree⟩ := by
  rw [World.run_perform_add_refused hw.reachable hw.patient hw.faultless hc hhas]
  refine ⟨rfl, rfl, rfl, fun k => ?_, rfl, rfl, rfl⟩
  change w.stored? k = _
  split
  · next hk => rw [hk, hc]
  · rfl

/-- Requests are carried out in their order up to the addition of a device that the
    container has by then. -/
theorem asksUpTo {requests : List Request} (h : Refits c.name requests c.devices devices)
    (hw : Willing ctx w) (hc : w.stored? c.name = some c) {name : String}
    (hhas : devices.contains name = true) (device : Device) (after : List Move) :
    HasEffect c w (((requests.map Move.ask ++
        .ask (.addDevice c.name name device) :: after).forM (·.make ctx)).run w)
      ⟨.error (.operationFailed ("add device " ++ name ++ " to " ++ c.name)
          ("device " ++ name ++ " already exists")),
        (requests ++ [Request.addDevice c.name name device]).map .asked, devices, w.tree⟩ := by
  have hfirst := asks h hw hc
  have hlast := refused (c := { c with devices := devices }) (hfirst.willing hw) hfirst.stored
    hhas device
  rw [hfirst.tree] at hlast
  have hcut := hlast.cut (y := after.forM (·.make ctx))
  rw [List.forM_eq_forM, List.forM_append, List.map_append]
  exact hfirst.andThen hcut

end HasEffect

theorem Script.OnlyAsks.moves_eq {s : Script} (hs : s.OnlyAsks) :
    s.moves = s.requests.map Move.ask := by
  unfold Script.OnlyAsks at hs
  unfold Script.requests
  generalize s.moves = moves at hs ⊢
  induction moves with
  | nil => rfl
  | cons m rest ih =>
    obtain ⟨⟨request, rfl⟩, hrest⟩ := List.forall_mem_cons.mp hs
    simp only [List.filterMap_cons, Move.request?, List.map_cons]
    rw [← ih hrest]

/-- A script that only asks has the effect of its requests, and ends as the looking
    does. -/
theorem hasEffect_follow {s : Script} (hs : s.OnlyAsks) (hw : Willing ctx w)
    (hc : w.stored? c.name = some c) (h : Refits c.name s.requests c.devices devices) :
    HasEffect c w ((s.follow ctx .fix).run w)
      ⟨s.ending, s.requests.map .asked, devices, w.tree⟩ := by
  have hasks := HasEffect.asks h hw hc
  rw [← hs.moves_eq] at hasks
  have hend (w' : World Store) (hc' : w'.stored? c.name = some { c with devices := devices }) :
      HasEffect { c with devices := devices } w'
        ((MonadExcept.ofExcept s.ending : Action (World Store) Unit).run w')
        ⟨s.ending, [], devices, w'.tree⟩ := by
    cases s.ending with
    | ok u => exact .idle (c := { c with devices := devices }) hc' rfl
    | error failure => exact .idle (c := { c with devices := devices }) hc' rfl
  have hthen := hasks.andThen (hend _ hasks.stored)
  rw [hasks.tree, List.append_nil] at hthen
  rw [Script.follow_fix]
  exact hthen

end Repair

/-! ### What requests make of the devices -/

namespace Refits

variable {container : String} {names : List String} {devices devices' : Dict String Device}

theorem get?_removals (h : Refits container (names.map fun name => .removeDevice container name)
    devices devices') (k : String) :
    devices'.get? k = if k ∈ names then none else devices.get? k := by
  induction names generalizing devices with
  | nil =>
    cases h
    simp
  | cons name rest ih =>
    cases h with
    | remove hhas hrest =>
      rw [ih hrest, Dict.get?_erase]
      by_cases hk : k = name
      · simp [hk]
      · simp [hk]

theorem get?_additions {f : String → Device}
    (h : Refits container (names.map fun name => .addDevice container name (f name))
      devices devices') (k : String) :
    devices'.get? k = if k ∈ names then some (f k) else devices.get? k := by
  induction names generalizing devices with
  | nil =>
    cases h
    simp
  | cons name rest ih =>
    cases h with
    | add hlacks hrest =>
      rw [ih hrest, Dict.get?_insert]
      by_cases hk : k = name
      · simp [hk]
      · simp [hk]

end Refits

end BuildTargets
