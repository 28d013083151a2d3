/-
  BuildTargets/Proofs/Store.lean
  ==============================
  **Requests to a service held in memory.**

  A request that is made and waited for is either refused, and then nothing has
  happened, or entered in the list of requests and then answered: by the failure
  that the store was told to give, or by what carrying it out comes to
  (`run_perform_of_refused`, `run_perform_of_accepted`).

  A store is *keyed* if every container is stored under its own name.  Every
  operation keeps it so.
-/
import BuildTargets.Proofs.Run
import BuildTargets.Store
import BuildTargets.World

namespace BuildTargets

variable {β α : Type}

/-! ### Runs on a part of the world -/

theorem World.run_onService (action : Action β α) (w : World β) :
    (World.onService action).run w = match action.run w.service with
      | .ok a s => .ok a { w with service := s }
      | .error e s => .error e { w with service := s } := rfl

theorem World.onService_bind {γ : Type} (x : Action β α) (f : α → Action β γ) :
    World.onService (x >>= f) = World.onService x >>= fun a => World.onService (f a) := by
  funext w
  change (World.onService (x >>= f)).run w = (World.onService x >>= _).run w
  rw [EStateM.run_bind, World.run_onService, World.run_onService, EStateM.run_bind]
  cases x.run w.service with
  | ok a s => rfl
  | error e s => rfl

theorem World.run_look (request : Tree → Except IoError α) (explain : IoError → Failure)
    (w : World β) :
    (World.look request explain).run w = match request w.tree with
      | .ok a => .ok a w
      | .error e => .error (explain e) w := by
  rw [World.look, EStateM.run_bind, EStateM.run_get]
  dsimp only
  cases request w.tree with
  | ok a => rfl
  | error e => rfl

theorem World.run_change (c : HostChange) (explain : IoError → Failure) (w : World β) :
    (World.change c explain).run w = match c.apply w.tree with
      | .ok t => .ok () { w with tree := t, journal := w.journal ++ [.changed c] }
      | .error e => .error (explain e) w := by
  rw [World.change, EStateM.run_bind, EStateM.run_get]
  dsimp only
  cases c.apply w.tree with
  | ok t => rfl
  | error e => rfl

namespace Store

variable {s : Store}

/-! ### The store as a service -/

theorem service_containers : (Service.containers : Action Store (List Container)) = listAll := rfl

theorem service_container (name : String) :
    (Service.container name : Action Store Container) = find name := rfl

theorem service_submit (request : Request) :
    (Service.submit request : Action Store Operation) = accept request := rfl

theorem service_await (op : Operation) (patience : Patience) :
    (Service.await op patience : Action Store Outcome) = finish op patience := rfl

/-! ### Queries -/

theorem run_listAll (s : Store) :
    listAll.run s = if s.unreachable then .error (.unreachable "backend is unreachable") s
      else .ok s.containers.values s := by
  rw [listAll, requireReachable, EStateM.run_bind, EStateM.run_bind, EStateM.run_get]
  dsimp only
  cases s.unreachable <;> rfl

theorem run_find (s : Store) (name : String) :
    (find name).run s = if s.unreachable then .error (.unreachable "backend is unreachable") s
      else match s.containers.get? name with
        | some c => .ok c s
        | none => .error (.noContainer name) s := by
  rw [find, requireReachable, EStateM.run_bind, EStateM.run_bind, EStateM.run_get]
  dsimp only
  cases s.unreachable with
  | true => rfl
  | false =>
    simp only [Bool.false_eq_true, if_false, EStateM.run_pure, EStateM.run_bind, EStateM.run_get]
    cases s.containers.get? name <;> rfl

theorem stateOf_listAll (s : Store) : stateOf (listAll.run s) = s := by
  rw [run_listAll]
  split <;> rfl

theorem stateOf_find (s : Store) (name : String) : stateOf ((find name).run s) = s := by
  rw [run_find]
  split
  · rfl
  · split <;> rfl

/-! ### Requests -/

/-- The store with a request entered and no longer pending. -/
def logged (s : Store) (request : Request) : Store :=
  { s with
    requests := s.requests ++ [request]
    pending := s.pending.erase (s.lastId + 1)
    lastId := s.lastId + 1 }

/-- What a request comes to that has been entered: given up, failed as the
    store was told to, or carried out. -/
def answer (s : Store) (patience : Patience) (request : Request) : Except Failure Unit × Store :=
  if patience.cancelled then (.error (.operationCancelled request.description), s)
  else match s.failing with
    | some detail => (.error (.operationFailed request.description detail), s)
    | none => match s.apply request with
      | (.success, s) => (.ok (), s)
      | (.failure detail, s) => (.error (.operationFailed request.description detail), s)

def pendingWith (s : Store) (request : Request) : Store :=
  { s with
    requests := s.requests ++ [request]
    pending := s.pending.insert (s.lastId + 1) request
    lastId := s.lastId + 1 }

theorem run_accept_eq (s : Store) (request : Request) :
    (accept request).run s =
      if s.unreachable then .error (.unreachable "backend is unreachable") s
      else if s.containers.contains request.container then
        .ok ⟨s.lastId + 1, request.description⟩ (s.pendingWith request)
      else .error (.noContainer request.container) s := by
  rw [accept, requireReachable, EStateM.run_bind, EStateM.run_bind, EStateM.run_get]
  dsimp only
  cases s.unreachable with
  | true => rfl
  | false =>
    simp only [Bool.false_eq_true, if_false, EStateM.run_pure, EStateM.run_bind, EStateM.run_get]
    cases s.containers.contains request.container <;> rfl

theorem refused_or_accepted (s : Store) (request : Request) :
    (s.unreachable = true ∨ s.containers.contains request.container = false) ∨
      s.unreachable = false ∧ s.containers.contains request.container = true := by
  cases s.unreachable <;> cases s.containers.contains request.container <;> simp

theorem run_accept {request : Request} (h : s.unreachable = false)
    (hc : s.containers.contains request.container = true) :
    (accept request).run s = .ok ⟨s.lastId + 1, request.description⟩ (s.pendingWith request) := by
  rw [run_accept_eq, h, hc]
  rfl

theorem run_accept_of_refused {request : Request}
    (h : s.unreachable = true ∨ s.containers.contains request.container = false) :
    ∃ e, e.drift? = none ∧ (accept request).run s = .error e s := by
  rw [run_accept_eq]
  cases hu : s.unreachable with
  | true => exact ⟨_, rfl, rfl⟩
  | false =>
    have hc : s.containers.contains request.container = false :=
      h.resolve_left (by rw [hu]; exact Bool.false_ne_true)
    rw [hc]
    exact ⟨_, rfl, rfl⟩

theorem run_finish_pendingWith (patience : Patience) (request : Request) :
    (finish ⟨s.lastId + 1, request.description⟩ patience).run (s.pendingWith request) =
      if patience.cancelled then
        .error (.operationCancelled request.description) (s.logged request)
      else match s.failing with
        | some detail => .ok (.failure detail) (s.logged request)
        | none => .ok ((s.logged request).apply request).1 ((s.logged request).apply request).2 := by
  have hpending : (s.pendingWith request).pending.get? (s.lastId + 1) = some request :=
    Dict.get?_insert_self ..
  have herase : { s.pendingWith request with
      pending := (s.pendingWith request).pending.erase (s.lastId + 1) } = s.logged request := by
    simp only [pendingWith, logged, Dict.erase_insert]
  have hfailing : (s.pendingWith request).failing = s.failing := rfl
  rw [finish, EStateM.run_bind, EStateM.run_get]
  dsimp only
  rw [hpending]
  dsimp only
  rw [herase, EStateM.run_bind, EStateM.run_set, hfailing]
  dsimp only
  cases patience.cancelled with
  | true => rfl
  | false => cases s.failing <;> rfl

theorem run_settle_pendingWith (patience : Patience) (request : Request) :
    (Service.settle ⟨s.lastId + 1, request.description⟩ patience).run (s.pendingWith request) =
      match (s.logged request).answer patience request with
      | (.ok _, s') => .ok () s'
      | (.error e, s') => .error e s' := by
  have hfailing : (s.logged request).failing = s.failing := rfl
  rw [Service.settle, EStateM.run_bind, service_await, run_finish_pendingWith, answer, hfailing]
  cases patience.cancelled with
  | true => rfl
  | false =>
    cases s.failing with
    | some detail => rfl
    | none =>
      simp only [Bool.false_eq_true, if_false]
      obtain ⟨outcome, s'⟩ := (s.logged request).apply request
      cases outcome <;> rfl

theorem run_perform (s : Store) (request : Request) (patience : Patience) :
    (Service.perform request patience).run s =
      if s.unreachable then .error (.unreachable "backend is unreachable") s
      else if s.containers.contains request.container then
        match (s.logged request).answer patience request with
        | (.ok _, s') => .ok () s'
        | (.error e, s') => .error e s'
      else .error (.noContainer request.container) s := by
  rw [Service.perform, EStateM.run_bind, service_submit, run_accept_eq]
  cases s.unreachable with
  | true => rfl
  | false =>
    cases s.containers.contains request.container with
    | true =>
      simp only [Bool.false_eq_true, if_false, if_true]
      exact run_settle_pendingWith patience request
    | false => rfl

/-- A request that is refused changes nothing, and one that is accepted is answered. -/
theorem stateOf_perform (s : Store) (request : Request) (patience : Patience) :
    stateOf ((Service.perform request patience).run s) = s ∨
      stateOf ((Service.perform request patience).run s) =
        ((s.logged request).answer patience request).2 := by
  rw [run_perform]
  split
  · exact Or.inl rfl
  · split
    · obtain ⟨result, s'⟩ := (s.logged request).answer patience request
      cases result <;> exact Or.inr rfl
    · exact Or.inl rfl

/-! ### What requests for devices do -/

theorem apply_addDevice {n name : String} {device : Device} {c : Container}
    (hc : s.containers.get? n = some c) :
    s.apply (.addDevice n name device) =
      if c.hasDevice name then (.failure ("device " ++ name ++ " already exists"), s)
      else (.success, { s with
        containers := s.containers.insert n { c with devices := c.devices.insert name device } }) := by
  simp only [apply, Request.container, hc, modify]

theorem apply_removeDevice {n name : String} {c : Container} (hc : s.containers.get? n = some c) :
    s.apply (.removeDevice n name) =
      if c.hasDevice name then (.success, { s with
        containers := s.containers.insert n { c with devices := c.devices.erase name } })
      else (.failure ("device " ++ name ++ " does not exist"), s) := by
  simp only [apply, Request.container, hc, modify]

/-- Carrying out a request for a device changes nothing but the devices of its
    container. -/
theorem apply_devices {request : Request} {c : Container}
    (hedit : (∃ n name device, request = .addDevice n name device) ∨
      ∃ n name, request = .removeDevice n name)
    (hc : s.containers.get? request.container = some c) :
    (s.apply request).2 = s ∨ ∃ devices, (s.apply request).2 = { s with
      containers := s.containers.insert request.container { c with devices := devices } } := by
  rcases hedit with ⟨n, name, device, rfl⟩ | ⟨n, name, rfl⟩
  · have hn : s.containers.get? n = some c := hc
    rw [apply_addDevice hn]
    split
    · exact Or.inl rfl
    · exact Or.inr ⟨_, rfl⟩
  · have hn : s.containers.get? n = some c := hc
    rw [apply_removeDevice hn]
    split
    · exact Or.inr ⟨_, rfl⟩
    · exact Or.inl rfl

theorem snd_answer (s : Store) (patience : Patience) (request : Request) :
    (s.answer patience request).2 = s ∨
      (s.answer patience request).2 = (s.apply request).2 := by
  rw [answer]
  split
  · exact Or.inl rfl
  · split
    · exact Or.inl rfl
    · refine Or.inr ?_
      obtain ⟨outcome, s'⟩ := s.apply request
      cases outcome <;> rfl

theorem requests_apply (s : Store) (request : Request) :
    (s.apply request).2.requests = s.requests := by
  unfold apply modify
  cases s.containers.get? request.container with
  | none => cases request <;> rfl
  | some c =>
    cases request with
    | addDevice n name device =>
      dsimp only
      split
      · rfl
      · split <;> rfl
    | removeDevice n name =>
      dsimp only
      split
      · split <;> rfl
      · rfl
    | stop n force =>
      dsimp only
      split <;> rfl
    | delete n => rfl

/-- Answers are not noted. -/
theorem requests_answer (s : Store) (patience : Patience) (request : Request) :
    (s.answer patience request).2.requests = s.requests := by
  rcases snd_answer s patience request with h | h
  · rw [h]
  · rw [h, requests_apply]

/-! ### Keyed stores -/

/-- Every container is stored under its own name. -/
def IsKeyed (s : Store) : Prop := ∀ name c, s.containers.get? name = some c → c.name = name

theorem IsKeyed.insert (h : s.IsKeyed) (c : Container) : (s.insert c).IsKeyed := by
  intro name c' hc'
  rw [Store.insert, Dict.get?_insert] at hc'
  split at hc'
  · next hname =>
    cases hc'
    exact hname.symm
  · exact h name c' hc'

theorem isKeyed_ofContainers (cs : List Container) : (ofContainers cs).IsKeyed := by
  have hfold (s : Store) (hs : s.IsKeyed) : (cs.foldl Store.insert s).IsKeyed := by
    induction cs generalizing s with
    | nil => exact hs
    | cons c cs ih => exact ih (s.insert c) (hs.insert c)
  refine hfold {} fun name c hc => ?_
  cases hc

theorem IsKeyed.modify (h : s.IsKeyed) {n : String} {f : Container → Container}
    (hf : ∀ c, (f c).name = c.name) : (s.modify n f).IsKeyed := by
  rw [Store.modify]
  split
  · next c hc =>
    intro name c' hc'
    rw [Dict.get?_insert] at hc'
    split at hc'
    · next hname =>
      cases hc'
      rw [hf, hname, h n c hc]
    · exact h name c' hc'
  · exact h

theorem IsKeyed.apply (h : s.IsKeyed) (request : Request) : (s.apply request).2.IsKeyed := by
  unfold Store.apply
  cases s.containers.get? request.container with
  | none => cases request <;> exact h
  | some c =>
    cases request with
    | addDevice n name device =>
      dsimp only
      split
      · exact h
      · exact h.modify fun _ => rfl
    | removeDevice n name =>
      dsimp only
      split
      · exact h.modify fun _ => rfl
      · exact h
    | stop n force => exact h.modify fun _ => rfl
    | delete n =>
      intro name c' hc'
      dsimp only at hc'
      rw [Dict.get?_erase] at hc'
      split at hc'
      · cases hc'
      · exact h name c' hc'

theorem keeps_isKeyed_accept (request : Request) :
    Keeps (fun s s' => s.IsKeyed → s'.IsKeyed) (accept request) := by
  intro s h
  rcases s.refused_or_accepted request with hrefused | ⟨hu, hc⟩
  · obtain ⟨e, -, hrun⟩ := run_accept_of_refused hrefused
    rw [hrun]
    exact h
  · rw [run_accept hu hc]
    exact h

theorem keeps_isKeyed_finish (op : Operation) (patience : Patience) :
    Keeps (fun s s' => s.IsKeyed → s'.IsKeyed) (finish op patience) := by
  intro s h
  rw [finish, EStateM.run_bind, EStateM.run_get]
  dsimp only
  cases s.pending.get? op.id with
  | none => exact h
  | some request =>
    have herase : IsKeyed { s with pending := s.pending.erase op.id } := h
    dsimp only
    rw [EStateM.run_bind, EStateM.run_set]
    dsimp only
    cases patience.cancelled with
    | true => exact herase
    | false =>
      simp only [Bool.false_eq_true, if_false]
      split
      · exact herase
      · exact herase.apply request

end Store

/-! ### Requests made and waited for -/

namespace World

variable {ctx : Context} {w w' : World Store} {request : Request}

def asked (w : World Store) (request : Request) : World Store :=
  { w with service := w.service.logged request, journal := w.journal ++ [.asked request] }

theorem run_perform_of_accepted (h : w.service.unreachable = false)
    (hc : w.service.containers.contains request.container = true) :
    (perform ctx request).run w =
      match (w.service.logged request).answer ctx.patience request with
      | (.ok _, s) => .ok () { w.asked request with service := s }
      | (.error e, s) => .error e { w.asked request with service := s } := by
  have henter (w : World Store) : (enter (.asked request)).run w =
      .ok () { w with journal := w.journal ++ [.asked request] } := rfl
  rw [perform, EStateM.run_bind, run_onService, Store.service_submit, Store.run_accept h hc]
  dsimp only
  rw [EStateM.run_bind, henter]
  dsimp only
  rw [run_onService, Store.run_settle_pendingWith]
  obtain ⟨result, s⟩ := (w.service.logged request).answer ctx.patience request
  cases result <;> rfl

theorem run_perform (ctx : Context) (request : Request) (w : World Store) :
    (perform ctx request).run w =
      if w.service.unreachable then .error (.unreachable "backend is unreachable") w
      else if w.service.containers.contains request.container then
        match (w.service.logged request).answer ctx.patience request with
        | (.ok _, s) => .ok () { w.asked request with service := s }
        | (.error e, s) => .error e { w.asked request with service := s }
      else .error (.noContainer request.container) w := by
  have haccept := Store.run_accept_eq w.service request
  cases hu : w.service.unreachable with
  | true =>
    rw [hu, if_pos rfl] at haccept
    rw [perform, EStateM.run_bind, run_onService, Store.service_submit, haccept, if_pos rfl]
  | false =>
    rw [hu, if_neg Bool.false_ne_true] at haccept
    rw [if_neg Bool.false_ne_true]
    cases hc : w.service.containers.contains request.container with
    | true => rw [run_perform_of_accepted hu hc, if_pos rfl]
    | false =>
      rw [hc, if_neg Bool.false_ne_true] at haccept
      rw [perform, EStateM.run_bind, run_onService, Store.service_submit, haccept,
        if_neg Bool.false_ne_true]

theorem run_perform_of_refused (ctx : Context) (request : Request)
    (h : w.service.unreachable = true ∨ w.service.containers.contains request.container = false) :
    ∃ e, e.drift? = none ∧ (perform ctx request).run w = .error e w := by
  obtain ⟨e, he, hrun⟩ := Store.run_accept_of_refused h
  refine ⟨e, he, ?_⟩
  rw [perform, EStateM.run_bind, run_onService, Store.service_submit, hrun]

/-- A request that succeeded was accepted, and carrying it out succeeded. -/
theorem of_run_perform_ok (h : (perform ctx request).run w = .ok () w') :
    w.service.unreachable = false ∧ w.service.containers.contains request.container = true ∧
      ∃ s, (w.service.logged request).apply request = (.success, s) ∧
        w' = { w.asked request with service := s } := by
  cases hu : w.service.unreachable with
  | true =>
    obtain ⟨e, -, hrun⟩ := run_perform_of_refused ctx request (Or.inl hu)
    rw [hrun] at h
    cases h
  | false =>
    cases hc : w.service.containers.contains request.container with
    | false =>
      obtain ⟨e, -, hrun⟩ := run_perform_of_refused ctx request (Or.inr hc)
      rw [hrun] at h
      cases h
    | true =>
      rw [run_perform_of_accepted hu hc, Store.answer] at h
      refine ⟨rfl, rfl, ?_⟩
      cases hp : ctx.patience.cancelled with
      | true => rw [hp] at h; cases h
      | false =>
        rw [hp] at h
        cases hf : (w.service.logged request).failing with
        | some detail => rw [hf] at h; cases h
        | none =>
          rw [hf] at h
          cases ha : (w.service.logged request).apply request with
          | mk outcome s =>
            rw [ha] at h
            cases outcome with
            | success => cases h; exact ⟨s, rfl, rfl⟩
            | failure detail => cases h

/-- Nothing stood in the way of a request that succeeded. -/
theorem unhindered_of_run_perform_ok (h : (perform ctx request).run w = .ok () w') :
    ctx.patience.cancelled = false ∧ w.service.failing = none := by
  obtain ⟨hu, hc, -⟩ := of_run_perform_ok h
  rw [run_perform_of_accepted hu hc, Store.answer] at h
  cases hp : ctx.patience.cancelled with
  | true =>
    rw [hp] at h
    cases h
  | false =>
    rw [hp] at h
    cases hf : (w.service.logged request).failing with
    | some detail =>
      rw [hf] at h
      cases h
    | none => exact ⟨rfl, hf⟩

theorem requests_perform_of_accepted (h : w.service.unreachable = false)
    (hc : w.service.containers.contains request.container = true) :
    (stateOf ((perform ctx request).run w)).service.requests = w.service.requests ++ [request] := by
  have hanswer := Store.requests_answer (w.service.logged request) ctx.patience request
  rw [run_perform_of_accepted h hc]
  generalize (w.service.logged request).answer ctx.patience request = r at hanswer ⊢
  obtain ⟨result, s⟩ := r
  cases result <;> exact hanswer

/-- A request is noted at most. -/
theorem requests_perform (ctx : Context) (request : Request) (w : World Store) :
    w.service.requests <+: (stateOf ((perform ctx request).run w)).service.requests := by
  rcases w.service.refused_or_accepted request with hrefused | ⟨hu, hc⟩
  · obtain ⟨e, -, hrun⟩ := run_perform_of_refused ctx request hrefused
    rw [hrun]
    exact List.prefix_rfl
  · rw [requests_perform_of_accepted hu hc]
    exact List.prefix_append ..

/-- A container of the world, as it is stored. -/
def stored? (w : World Store) (name : String) : Option Container := w.service.containers.get? name

/-- The world with the devices of a container replaced by a request. -/
def withDevices (w : World Store) (request : Request) (c : Container)
    (devices : Dict String Device) : World Store :=
  { w.asked request with
    service := { w.service.logged request with
      containers := w.service.containers.insert request.container { c with devices := devices } } }

theorem of_run_perform_add_ok {n name : String} {device : Device}
    (h : (perform ctx (.addDevice n name device)).run w = .ok () w') :
    ∃ c, w.stored? n = some c ∧ c.hasDevice name = false ∧
      w' = w.withDevices (.addDevice n name device) c (c.devices.insert name device) := by
  obtain ⟨-, hc, s, ha, rfl⟩ := of_run_perform_ok h
  obtain ⟨c, hc⟩ := Option.isSome_iff_exists.mp hc
  refine ⟨c, hc, ?_⟩
  have hc' : (w.service.logged (.addDevice n name device)).containers.get? n = some c := hc
  rw [Store.apply_addDevice hc'] at ha
  split at ha
  · cases ha
  · next hd =>
    cases ha
    exact ⟨Bool.not_eq_true _ ▸ hd, rfl⟩

theorem of_run_perform_remove_ok {n name : String}
    (h : (perform ctx (.removeDevice n name)).run w = .ok () w') :
    ∃ c, w.stored? n = some c ∧
      w' = w.withDevices (.removeDevice n name) c (c.devices.erase name) := by
  obtain ⟨-, hc, s, ha, rfl⟩ := of_run_perform_ok h
  obtain ⟨c, hc⟩ := Option.isSome_iff_exists.mp hc
  refine ⟨c, hc, ?_⟩
  have hc' : (w.service.logged (.removeDevice n name)).containers.get? n = some c := hc
  rw [Store.apply_removeDevice hc'] at ha
  split at ha
  · cases ha
    rfl
  · cases ha

theorem stored?_withDevices (w : World Store) (request : Request) (c : Container)
    (devices : Dict String Device) (n : String) :
    (w.withDevices request c devices).stored? n =
      if n = request.container then some { c with devices := devices } else w.stored? n :=
  Dict.get?_insert ..

/-- A device that the container has already is not added. -/
theorem run_perform_add_refused {n name : String} {c : Container}
    (hu : w.service.unreachable = false) (hcancelled : ctx.patience.cancelled = false)
    (hfailing : w.service.failing = none) (hc : w.stored? n = some c)
    (hhas : c.hasDevice name = true) (device : Device) :
    (perform ctx (.addDevice n name device)).run w =
      .error (.operationFailed ("add device " ++ name ++ " to " ++ n)
        ("device " ++ name ++ " already exists")) (w.asked (.addDevice n name device)) := by
  have hcontains : w.service.containers.contains
      (Request.addDevice n name device).container = true :=
    Option.isSome_iff_exists.mpr ⟨c, hc⟩
  have hfound : (w.service.logged (.addDevice n name device)).containers.get? n = some c := hc
  have hfailing' : (w.service.logged (.addDevice n name device)).failing = none := hfailing
  rw [run_perform_of_accepted hu hcontains, Store.answer, hcancelled, hfailing',
    Store.apply_addDevice hfound, if_pos hhas]
  rfl

/-- A device that has been added is not added again. -/
theorem run_perform_add_again {n name : String} {device : Device}
    (h : (perform ctx (.addDevice n name device)).run w = .ok () w') :
    (perform ctx (.addDevice n name device)).run w' =
      .error (.operationFailed ("add device " ++ name ++ " to " ++ n)
        ("device " ++ name ++ " already exists")) (w'.asked (.addDevice n name device)) := by
  obtain ⟨hu, -, -⟩ := of_run_perform_ok h
  obtain ⟨hcancelled, hfailing⟩ := unhindered_of_run_perform_ok h
  obtain ⟨c, -, -, rfl⟩ := of_run_perform_add_ok h
  have hstored := stored?_withDevices w (.addDevice n name device) c
    (c.devices.insert name device) n
  rw [Request.container, if_pos rfl] at hstored
  refine run_perform_add_refused (w := w.withDevices _ c _) hu hcancelled hfailing hstored ?_ device
  rw [Container.hasDevice, Dict.contains, Dict.get?_insert_self]
  rfl

end World

end BuildTargets
