/-
  BuildTargets/Proofs/Repair/Interchange.lean
  ===========================================
  **A run over a client is the run over the store that it mirrors.**

  A run over a store and the same run over a client go side by side (`Tandem.InStep`):
  as long as both have come equally far they come to the same, and then they have
  again come equally far.  This is so for the queries, the requests and the changes of
  the host, and it is carried along sequences and loops.  So it is so for scripts, for
  the repairs, which follow scripts, and for every run of the library
  (`interchangeable`).

  The client carries out whatever it is asked, so the store has to do so as well.  It
  does if all names in the tree are texts.  If they are not, one text may be listed for
  two nodes of the graphics driver, and the store refuses to add the second; then it
  is supposed that no operation of its run fails (`NoOperationFails`).
-/
import BuildTargets.Proofs.Repair.Rounds
import BuildTargets.Proofs.Repair.Tandem

namespace BuildTargets

open Repair

namespace World

variable {β γ : Type}

/-- The world with another service in the place of its own. -/
def withService (w : World β) (service : γ) : World γ where
  service := service
  tree := w.tree
  drivers := w.drivers
  journal := w.journal

/-- All libraries of drivers that are remembered can be arguments. -/
def RemembersArguments (w : World β) : Prop :=
  ∀ seeker driver, w.drivers.get? seeker = some driver → IsArgument driver.libraries

theorem service_onService {α : Type} (x : Action β α) (w : World β) :
    (stateOf ((onService x).run w)).service = stateOf (x.run w.service) := by
  rw [run_onService]
  cases x.run w.service <;> rfl

/-- What comes next does not take back what a run has come to. -/
theorem KeepsService.after {α : Type} {R : β → β → Prop} (hrefl : ∀ s, R s s)
    {f : α → Action (World β) γ} (hf : ∀ a, KeepsService R (f a)) (x : Action (World β) α)
    (w : World β) :
    R (stateOf (x.run w)).service (stateOf ((x >>= f).run w)).service := by
  rw [EStateM.run_bind]
  cases x.run w with
  | ok a w' => exact hf a w'
  | error e w' => exact hrefl w'.service

end World

namespace Tandem

variable {k : Tandem} {texts : Prop} {w w' : World Store} {v v' : World Client} {α γ : Type}

/-! ### Worlds that have come equally far -/

/-- Two worlds that differ in nothing but the service, a store in the one and a client
    in the other, which have come equally far.  If `texts` holds, all names in the tree
    are texts. -/
structure Abreast (k : Tandem) (texts : Prop) (w : World Store) (v : World Client) : Prop where
  same : v = w.withService v.service
  paired : k.Paired w.service v.service
  proper : w.tree.IsProper
  drivers : w.RemembersArguments
  texts : texts → w.tree.HasTexts

/-- Unless the two runs go further than `k`, or an operation of the store fails that may
    do so, they come to the same, and to worlds that have come equally far. -/
def InStep (k : Tandem) (texts : Prop) (x : Action (World Store) α) (y : Action (World Client) α)
    (w : World Store) (v : World Client) : Prop :=
  k.Within (stateOf (x.run w)).service (stateOf (y.run v)).service →
  texts ∨ NoOperationFails (x.run w) →
    resultOf (y.run v) = resultOf (x.run w) ∧
      k.Abreast texts (stateOf (x.run w)) (stateOf (y.run v))

/-- Neither action takes anything back that has been asked of the service. -/
structure GoOn (x : Action (World Store) α) (y : Action (World Client) α) : Prop where
  store : World.KeepsService (fun s s' : Store => s.requests <+: s'.requests) x
  client : World.KeepsService (fun c c' : Client => c.log <+: c'.log) y

namespace GoOn

variable {x : Action (World Store) α} {y : Action (World Client) α}

theorem within {f : α → Action (World Store) γ} {g : α → Action (World Client) γ}
    (hon : ∀ a, GoOn (f a) (g a))
    (h : k.Within (stateOf ((x >>= f).run w)).service (stateOf ((y >>= g).run v)).service) :
    k.Within (stateOf (x.run w)).service (stateOf (y.run v)).service :=
  h.before
    (World.KeepsService.after (R := fun s s' : Store => s.requests <+: s'.requests)
      (fun _ => List.prefix_rfl) (fun a => (hon a).store) x w)
    (World.KeepsService.after (R := fun c c' : Client => c.log <+: c'.log)
      (fun _ => List.prefix_rfl) (fun a => (hon a).client) y v)

theorem pure (a : α) : GoOn (Pure.pure a) (Pure.pure a) :=
  ⟨fun _ => List.prefix_rfl, fun _ => List.prefix_rfl⟩

theorem bind {f : α → Action (World Store) γ} {g : α → Action (World Client) γ} (h : GoOn x y)
    (hon : ∀ a, GoOn (f a) (g a)) : GoOn (x >>= f) (y >>= g) where
  store := Store.keeping_requests.seq h.store fun a => (hon a).store
  client := Client.keeping_log.seq h.client fun a => (hon a).client

theorem forM {ι κ : Type} {f : ι → Action (World Store) Unit} {g : κ → Action (World Client) Unit}
    {R : ι → κ → Prop} (hon : ∀ a b, R a b → GoOn (f a) (g b)) {l : List ι} {l' : List κ}
    (hl : List.Forall₂ R l l') : GoOn (l.forM f) (l'.forM g) := by
  induction hl with
  | nil => exact pure ()
  | cons hab _ ih => exact (hon _ _ hab).bind fun _ => ih

end GoOn

namespace InStep

variable {x : Action (World Store) α} {y : Action (World Client) α}

theorem pure (h : k.Abreast texts w v) (a : α) : k.InStep texts (Pure.pure a) (Pure.pure a) w v :=
  fun _ _ => ⟨rfl, h⟩

theorem ofExcept (h : k.Abreast texts w v) (r : Except Failure α) :
    k.InStep texts (MonadExcept.ofExcept r) (MonadExcept.ofExcept r) w v := by
  intro _ _
  cases r <;> exact ⟨rfl, h⟩

theorem congr {x' : Action (World Store) α} {y' : Action (World Client) α} {w₀ : World Store}
    {v₀ : World Client} (hx : x.run w = x'.run w₀) (hy : y.run v = y'.run v₀)
    (h : k.InStep texts x' y' w₀ v₀) : k.InStep texts x y w v := by
  intro hwithin hfine
  rw [hx] at hfine
  rw [hx, hy] at hwithin ⊢
  exact h hwithin hfine

theorem bind {f : α → Action (World Store) γ} {g : α → Action (World Client) γ}
    (hx : k.InStep texts x y w v)
    (hf : ∀ a w' v', x.run w = .ok a w' → k.Abreast texts w' v' →
      k.InStep texts (f a) (g a) w' v')
    (hon : ∀ a, GoOn (f a) (g a)) : k.InStep texts (x >>= f) (y >>= g) w v := by
  intro hwithin hfine
  obtain ⟨hresult, habreast⟩ := hx (GoOn.within hon hwithin) (hfine.imp_right (·.of_bind))
  rw [EStateM.run_bind] at hfine
  rw [EStateM.run_bind, EStateM.run_bind] at hwithin ⊢
  cases hrun : x.run w with
  | ok a w' =>
    rw [hrun] at hfine
    rw [hrun] at hresult habreast hwithin
    cases hrun' : y.run v with
    | ok b v' =>
      rw [hrun'] at hresult habreast hwithin
      cases hresult
      exact hf a w' v' hrun habreast hwithin hfine
    | error e v' =>
      rw [hrun'] at hresult
      cases hresult
  | error e w' =>
    rw [hrun] at hresult habreast hwithin
    cases hrun' : y.run v with
    | ok b v' =>
      rw [hrun'] at hresult
      cases hresult
    | error e' v' =>
      rw [hrun'] at hresult habreast hwithin
      cases hresult
      exact ⟨rfl, habreast⟩

/-- A loop over two lists that belong together carries a statement about what is left to
    do, and about the state, along both runs. -/
theorem forM {ι κ : Type} {f : ι → Action (World Store) Unit}
    {g : κ → Action (World Client) Unit} {R : ι → κ → Prop} {I : List ι → World Store → Prop}
    (hstep : ∀ a b rest w v, R a b → I (a :: rest) w → k.Abreast texts w v →
      k.InStep texts (f a) (g b) w v)
    (hnext : ∀ a rest w w', I (a :: rest) w → (f a).run w = .ok () w' → I rest w')
    (hon : ∀ a b, R a b → GoOn (f a) (g b)) {l : List ι} {l' : List κ} (hl : List.Forall₂ R l l')
    (hI : I l w) (h : k.Abreast texts w v) : k.InStep texts (l.forM f) (l'.forM g) w v := by
  induction hl generalizing w v with
  | nil => exact pure h ()
  | @cons a b rest rest' hab hrest ih =>
    rw [List.forM_eq_forM, List.forM_eq_forM, List.forM_cons, List.forM_cons]
    refine bind (hstep a b rest w v hab hI h)
      (fun _ w' v' hrun h' => ih (hnext a rest w w' hI hrun) h') fun _ => ?_
    rw [← List.forM_eq_forM, ← List.forM_eq_forM]
    exact GoOn.forM hon hrest

end InStep

/-! ### Queries -/

theorem Abreast.serve (h : k.Abreast texts w v) {s : Store} {c : Client}
    (hpaired : k.Paired s c) :
    k.Abreast texts { w with service := s } { v with service := c } where
  same := by
    rw [h.same]
    rfl
  paired := hpaired
  proper := h.proper
  drivers := h.drivers
  texts := h.texts

theorem inStep_containers (hk : k.Mirrors) (h : k.Abreast texts w v) :
    k.InStep texts (World.onService Service.containers) (World.onService Service.containers) w
      v := by
  intro hwithin _
  rw [World.service_onService, World.service_onService, Store.service_containers,
    Client.service_containers, Store.stateOf_listAll] at hwithin
  rw [World.run_onService, World.run_onService, Store.service_containers,
    Client.service_containers, Store.run_listAll, h.paired.healthy.reachable,
    h.paired.run_listAll hk hwithin]
  exact ⟨rfl, h.serve h.paired.invoked⟩

theorem inStep_container (hk : k.Mirrors) (h : k.Abreast texts w v) (name : String) :
    k.InStep texts (World.onService (Service.container name))
      (World.onService (Service.container name)) w v := by
  intro hwithin _
  rw [World.service_onService, World.service_onService, Store.service_container,
    Client.service_container, Store.stateOf_find] at hwithin
  rw [World.run_onService, World.run_onService, Store.service_container,
    Client.service_container, Store.run_find, h.paired.healthy.reachable,
    h.paired.run_find hk hwithin]
  cases w.service.containers.get? name with
  | some c => exact ⟨rfl, h.serve h.paired.invoked⟩
  | none => exact ⟨rfl, h.serve h.paired.invoked⟩

/-- A container that has been found is stored. -/
theorem Abreast.of_run_container (h : k.Abreast texts w v) {name : String} {c : Container}
    (hrun : (World.onService (Service.container name)).run w = .ok c w') :
    w.service.containers.get? name = some c ∧ w' = w := by
  rw [World.run_onService, Store.service_container, Store.run_find,
    h.paired.healthy.reachable] at hrun
  cases hget : w.service.containers.get? name with
  | none =>
    rw [hget] at hrun
    cases hrun
  | some found =>
    rw [hget] at hrun
    cases hrun
    exact ⟨rfl, rfl⟩

theorem inStep_targets (hk : k.Mirrors) (h : k.Abreast texts w v) :
    k.InStep texts (World.onService Service.targets) (World.onService Service.targets) w v := by
  have hstore : World.onService (Service.targets : Action Store (List Container)) =
      World.onService Service.containers >>= fun cs => Pure.pure (cs.filter (·.isTarget)) :=
    World.onService_bind _ _
  have hclient : World.onService (Service.targets : Action Client (List Container)) =
      World.onService Service.containers >>= fun cs => Pure.pure (cs.filter (·.isTarget)) :=
    World.onService_bind _ _
  rw [hstore, hclient]
  exact InStep.bind (inStep_containers hk h) (fun _ _ _ _ h' => .pure h' _) fun _ => .pure _

/-! ### Requests -/

section

variable {ctx : Context} {request : Request} {b : Container} {result : Option Container}
  (hk : k.Mirrors) (hcancelled : k.patience.cancelled = false) (h : k.Abreast texts w v)
  (hspell : request.IsSpellable) (hb : w.service.containers.get? request.container = some b)
  (hchange : request.change? b = some result)

include hk hcancelled h hspell hb hchange

theorem inStep_servicePerform :
    k.InStep texts (World.onService (Service.perform request k.patience))
      (World.onService (Service.perform request k.patience)) w v := by
  have hrun := h.paired.healthy.run_perform hcancelled hb hchange
  intro hwithin _
  rw [World.service_onService, World.service_onService] at hwithin
  rw [World.run_onService, World.run_onService, hrun,
    h.paired.run_perform hk hcancelled hspell hb hchange hwithin]
  exact ⟨rfl, h.serve (h.paired.settled hspell hb hchange)⟩

theorem inStep_perform (hpatience : ctx.patience = k.patience) :
    k.InStep texts (World.perform ctx request) (World.perform ctx request) w v := by
  have hcontains : w.service.containers.contains request.container = true := by
    rw [Dict.contains, hb]
    rfl
  have hsubmit := Store.run_accept h.paired.healthy.reachable hcontains
  have hrun := h.paired.healthy.run_perform hcancelled hb hchange
  intro hwithin _
  rw [World.service_perform, World.service_perform, hpatience] at hwithin
  have hbefore : k.Within w.service v.service :=
    hwithin.before (Store.keeping_requests.perform _ _ _) (Client.keeping_log.perform _ _ _)
  obtain ⟨run, hstart, -⟩ := h.paired.next hk hbefore
    (h.paired.mayAsk hcancelled hspell hb hchange hwithin)
  have hsubmit' := Client.run_accept v.service request
  rw [hstart] at hsubmit'
  rw [World.run_perform_of_submit hsubmit, World.run_perform_of_submit hsubmit', hpatience, hrun,
    h.paired.run_perform hk hcancelled hspell hb hchange hwithin]
  have hserve := h.serve (h.paired.settled hspell hb hchange)
  refine ⟨rfl, ?_, hserve.paired, hserve.proper, hserve.drivers, hserve.texts⟩
  rw [h.same]
  rfl

end

/-! ### Changes of the host -/

theorem inStep_change (h : k.Abreast texts w v) {change : HostChange}
    (htext : change.IsTextual) (explain : IoError → Failure) :
    k.InStep texts (World.change change explain) (World.change change explain) w v := by
  have htree : v.tree = w.tree := by rw [h.same]; rfl
  intro _ _
  rw [World.run_change, World.run_change, htree]
  cases happly : change.apply w.tree with
  | ok t =>
    refine ⟨rfl, ?_, h.paired, h.proper.apply happly, h.drivers,
      fun ht => (h.texts ht).apply htext happly⟩
    rw [h.same]
    rfl
  | error e => exact ⟨rfl, h⟩

/-! ### Scripts -/

theorem forall₂_eq {ι : Type} (l : List ι) : List.Forall₂ Eq l l :=
  List.forall₂_same.mpr fun _ _ => rfl

variable {ctx : Context} {mode : Mode} {seeker : String} {c : Container}

theorem goOn_change (change : HostChange) (explain : IoError → Failure) :
    GoOn (World.change change explain) (World.change change explain) :=
  ⟨Store.keeping_requests.change change explain, Client.keeping_log.change change explain⟩

theorem goOn_make (m : Move) : GoOn (m.make ctx) (m.make ctx) :=
  ⟨Store.keeping_requests.make m, Client.keeping_log.make m⟩

theorem goOn_ofExcept (r : Except Failure Unit) :
    GoOn (MonadExcept.ofExcept r) (MonadExcept.ofExcept r) :=
  ⟨Store.keeping_requests.ofExcept r, Client.keeping_log.ofExcept r⟩

/-- The moves that are left are for the container as it is stored now.  If `texts` holds,
    the requests among them can be carried out. -/
def MovesFit (texts : Prop) (c : Container) (ms : List Move) (w : World Store) : Prop :=
  ∃ devices, w.stored? c.name = some { c with devices := devices } ∧
    (texts → ∃ devices', Refits c.name (ms.filterMap Move.request?) devices devices') ∧
    ∀ m ∈ ms, m.IsSpellable c.name

theorem MovesFit.next {m : Move} {rest : List Move} (h : MovesFit texts c (m :: rest) w)
    (hrun : (m.make ctx).run w = .ok () w') : MovesFit texts c rest w' := by
  obtain ⟨devices, hc, hrefits, hspell⟩ := h
  obtain ⟨hfirst, hrest⟩ := List.forall_mem_cons.mp hspell
  have hedited (request : Request) (hname : request.container = c.name)
      (devices' : Dict String Device) :
      (w.withDevices request { c with devices := devices } devices').stored? c.name =
        some { c with devices := devices' } := by
    rw [World.stored?_withDevices, if_pos hname.symm]
  cases m with
  | ask request =>
    obtain ⟨hedit, -⟩ := hfirst
    cases request with
    | addDevice n name device =>
      obtain rfl : n = c.name := hedit
      obtain ⟨c', hc', -, rfl⟩ := World.of_run_perform_add_ok hrun
      cases hc'.symm.trans hc
      refine ⟨_, hedited _ rfl _, fun ht => ?_, hrest⟩
      obtain ⟨devices', hrefits⟩ := hrefits ht
      cases hrefits with
      | add hlacks hothers => exact ⟨devices', hothers⟩
    | removeDevice n name =>
      obtain rfl : n = c.name := hedit
      obtain ⟨c', hc', rfl⟩ := World.of_run_perform_remove_ok hrun
      cases hc'.symm.trans hc
      refine ⟨_, hedited _ rfl _, fun ht => ?_, hrest⟩
      obtain ⟨devices', hrefits⟩ := hrefits ht
      cases hrefits with
      | remove hhas hothers => exact ⟨devices', hothers⟩
    | stop n force => exact hedit.elim
    | delete n => exact hedit.elim
  | reshape changes explain =>
    have hservice :
        (stateOf (((Move.reshape changes explain).make ctx).run w)).service = w.service :=
      keeps_service_changes changes explain w
    rw [hrun] at hservice
    refine ⟨devices, ?_, hrefits, hrest⟩
    rw [World.stored?, show w'.service = w.service from hservice]
    exact hc

/-- What a store is asked for can be carried out if it fits, or if it does not fail. -/
theorem exists_change? {request : Request} {rest : List Request} (hhealthy : w.service.IsHealthy)
    (hcancelled : ctx.patience.cancelled = false) {devices : Dict String Device}
    (hc : w.stored? c.name = some { c with devices := devices })
    (hedit : request.IsEditOf c.name)
    (hfine : (∃ devices', Refits c.name (request :: rest) devices devices') ∨
      NoOperationFails ((World.perform ctx request).run w)) :
    ∃ result, request.change? { c with devices := devices } = some result := by
  rcases hfine with ⟨devices', hrefits⟩ | hfine
  · cases hrefits with
    | remove hhas _ => exact ⟨_, if_pos hhas⟩
    | add hlacks _ => exact ⟨_, if_neg (Bool.eq_false_iff.mp hlacks)⟩
  · refine Option.ne_none_iff_exists'.mp fun hnone => ?_
    have hname : request.container = c.name := by
      cases request with
      | addDevice n name device => exact hedit
      | removeDevice n name => exact hedit
      | stop n force => exact hedit.elim
      | delete n => exact hedit.elim
    have hfound : (w.service.logged request).containers.get? request.container =
        some { c with devices := devices } := by
      rw [hname]
      exact hc
    have hcontains : w.service.containers.contains request.container = true :=
      Option.isSome_iff_exists.mpr ⟨_, hfound⟩
    have hfaultless : (w.service.logged request).failing = none := hhealthy.faultless
    obtain ⟨detail, happly⟩ := Store.apply_of_no_change hfound hnone
    refine hfine request.description detail ?_
    rw [World.run_perform_of_accepted hhealthy.reachable hcontains, Store.answer, hcancelled,
      hfaultless, happly]
    rfl

section

variable (hk : k.Mirrors) (hcancelled : k.patience.cancelled = false)
  (hpatience : ctx.patience = k.patience)

include hk hcancelled hpatience

theorem inStep_make (h : k.Abreast texts w v) {m : Move} {rest : List Move}
    (hfit : MovesFit texts c (m :: rest) w) :
    k.InStep texts (m.make ctx) (m.make ctx) w v := by
  obtain ⟨devices, hc, hrefits, hspell⟩ := hfit
  have hfirst := hspell m List.mem_cons_self
  cases m with
  | ask request =>
    obtain ⟨hedit, hspell⟩ := hfirst
    intro hwithin hfine
    obtain ⟨result, hchange⟩ := exists_change? h.paired.healthy (hpatience ▸ hcancelled) hc hedit
      (hfine.imp_left hrefits)
    have hc' : w.service.containers.get? request.container =
        some { c with devices := devices } := by
      cases request with
      | addDevice n name device => exact (congrArg _ hedit).trans hc
      | removeDevice n name => exact (congrArg _ hedit).trans hc
      | stop n force => exact hedit.elim
      | delete n => exact hedit.elim
    exact inStep_perform hk hcancelled h hspell hc' hchange hpatience hwithin hfine
  | reshape changes explain =>
    exact InStep.forM (I := fun (changes : List HostChange) _ =>
        ∀ change ∈ changes, change.IsTextual)
      (fun change _ rest w v heq htext h =>
        heq ▸ inStep_change h (htext change List.mem_cons_self) explain)
      (fun change rest _ _ htext _ => (List.forall_mem_cons.mp htext).2)
      (fun change _ heq => heq ▸ goOn_change change explain)
      (forall₂_eq changes) hfirst h

theorem inStep_follow (h : k.Abreast texts w v) {s : Script} (hc : w.stored? c.name = some c)
    (hfeasible : texts → s.IsFeasible c.name c.devices) (hspell : s.IsSpellable c.name) :
    k.InStep texts (s.follow ctx mode) (s.follow ctx mode) w v := by
  cases mode with
  | check =>
    -- nothing is done, so nothing can go apart
    intro _ _
    rw [Script.stateOf_follow_check, Script.stateOf_follow_check]
    obtain ⟨points, ending⟩ := s
    cases points with
    | nil => cases ending <;> exact ⟨rfl, h⟩
    | cons point rest => exact ⟨rfl, h⟩
  | fix =>
    have hfit : MovesFit texts c s.moves w := ⟨c.devices, hc, hfeasible, hspell⟩
    rw [Script.follow_fix, Script.follow_fix]
    refine InStep.bind ?_ (fun _ w' v' _ h' => .ofExcept h' _) fun _ => goOn_ofExcept _
    refine InStep.forM (I := MovesFit texts c) (fun m m' rest w v heq hfit h => ?_)
      (fun m rest w w' hfit hrun => hfit.next hrun) (fun m m' heq => heq ▸ goOn_make m)
      (forall₂_eq s.moves) hfit h
    subst heq
    exact inStep_make hk hcancelled hpatience h hfit

end

/-! ### Repairs -/

/-- The same repair of the standard ones, over a store and over a client. -/
inductive Same (seeker : String) : Repair Store → Repair Client → Prop where
  | access : Same seeker access access
  | resources : Same seeker resources resources
  | renderNodes : Same seeker renderNodes renderNodes
  | graphicsDriver : Same seeker (graphicsDriver seeker) (graphicsDriver seeker)

theorem same_standard (seeker : String) :
    List.Forall₂ (Same seeker) (standard seeker) (standard seeker) :=
  .cons .access (.cons .resources (.cons .renderNodes (.cons .graphicsDriver .nil)))

variable {r : Repair Store} {r' : Repair Client}

theorem Same.mem_store (h : Same seeker r r') : r ∈ standard seeker := by
  cases h <;> simp [standard]

theorem Same.mem_client (h : Same seeker r r') : r' ∈ standard seeker := by
  cases h <;> simp [standard]

theorem goOn_run (hr : Same seeker r r') (c : Container) :
    GoOn (r.run ctx mode c) (r'.run ctx mode c) :=
  ⟨Store.keeping_requests.runOn hr.mem_store c, Client.keeping_log.runOn hr.mem_client c⟩

theorem isArgument_of_ofVersion? {text : String} {driver : Driver}
    (h : Driver.ofVersion? text = some driver) : IsArgument driver.libraries := by
  unfold Driver.ofVersion? at h
  dsimp only at h
  split at h
  · cases h
  · rw [Option.some.injEq] at h
    subst h
    refine IsArgument.append (by decide) fun hmem => ?_
    rw [String.toList_ofList] at hmem
    exact absurd (List.mem_takeWhile_imp hmem) (by decide)

theorem isArgument_of_knownDriver {host : HostView} (hw : w.RemembersArguments) {driver : Driver}
    (h : knownDriver host seeker w = .ok (some driver)) : IsArgument driver.libraries := by
  unfold knownDriver at h
  split at h
  · next hd =>
    cases h
    exact hw seeker driver hd
  · rw [find?_eq] at h
    split at h
    · split at h
      · next hversion =>
        split at h
        · cases h
          exact isArgument_of_ofVersion? hversion
        · cases h
        · cases h
      · cases h
    · cases h

theorem Abreast.tree (h : k.Abreast texts w v) : v.tree = w.tree := by
  rw [h.same]
  rfl

theorem Abreast.knownDriver (h : k.Abreast texts w v) (host : HostView) (seeker : String) :
    knownDriver host seeker v = knownDriver host seeker w := by
  rw [h.same]
  rfl

theorem Abreast.recalled (h : k.Abreast texts w v) (host : HostView) (seeker : String) :
    k.Abreast texts (recalled host seeker w) (recalled host seeker v) := by
  unfold Repair.recalled
  rw [h.tree, h.knownDriver]
  split
  · next driver _ hknown =>
    refine ⟨?_, h.paired, h.proper, fun seeker' driver' hd => ?_, h.texts⟩
    · rw [h.same]
      rfl
    · have hinsert : (remembering w seeker driver).drivers.get? seeker' =
          if seeker' = seeker then some driver else w.drivers.get? seeker' := Dict.get?_insert ..
      rw [hinsert] at hd
      split at hd
      · cases hd
        exact isArgument_of_knownDriver h.drivers hknown
      · exact h.drivers seeker' driver' hd
  · exact h

section

variable (hk : k.Mirrors) (hcancelled : k.patience.cancelled = false)
  (hpatience : ctx.patience = k.patience)

include hk hcancelled hpatience

/-- A repair works on a container as it is stored. -/
theorem inStep_run (hr : Same seeker r r') (h : k.Abreast texts w v)
    (hc : w.stored? c.name = some c) :
    k.InStep texts (r.run ctx mode c) (r'.run ctx mode c) w v := by
  have hnamed := h.paired.healthy.named _ c hc
  cases hr with
  | access =>
    refine InStep.congr (keepAccess_follows w c) (keepAccess_follows v c) ?_
    rw [h.tree]
    exact inStep_follow hk hcancelled hpatience h hc
      (fun _ => Script.isFeasible_of_no_requests (requests_accessScript ctx.host w.tree c))
      (isSpellable_access ctx.host w.tree c)
  | resources =>
    refine InStep.congr (keepResources_follows w c) (keepResources_follows v c) ?_
    rw [h.tree]
    refine inStep_follow hk hcancelled hpatience h hc (fun _ => ?_) (isSpellable_resources hnamed)
    refine isFeasible_resources c.devices.sorted fun e he => ?_
    rw [Dict.contains, Dict.get?_eq_some_iff.mpr he]
    rfl
  | renderNodes =>
    refine InStep.congr (keepRenderNodes_follows w c) (keepRenderNodes_follows v c) ?_
    rw [h.tree]
    exact inStep_follow hk hcancelled hpatience h hc (fun _ => isFeasible_renderNodes ..)
      (isSpellable_renderNodes hnamed h.proper)
  | graphicsDriver =>
    refine InStep.congr (keepDriver_follows w c seeker) (keepDriver_follows v c seeker) ?_
    rw [h.tree, h.knownDriver]
    have hc' : (recalled ctx.host seeker w).stored? c.name = some c := by
      unfold recalled
      split <;> exact hc
    exact inStep_follow hk hcancelled hpatience (h.recalled ctx.host seeker) hc'
      (fun ht => isFeasible_driverScript (nodesOnce_of_hasTexts (h.texts ht) ctx.host c.name))
      (isSpellable_driverScript hnamed h.proper fun driver hknown =>
        isArgument_of_knownDriver h.drivers hknown)

/-- What is done to one target leaves those still to come as they were listed. -/
theorem inStep_onTargets (hr : Same seeker r r') (h : k.Abreast texts w v) :
    k.InStep texts (r.onTargets ctx mode) (r'.onTargets ctx mode) w v := by
  refine InStep.bind (inStep_targets hk h) (fun cs w' v' hrun h' => ?_) fun cs =>
    GoOn.forM (fun c c' heq => heq ▸ goOn_run hr c) (forall₂_eq cs)
  have hcurrent : IsCurrent cs w' := by
    rw [World.run_onService, run_targets, h.paired.healthy.reachable] at hrun
    cases hrun
    exact isCurrent_targets h.paired.healthy.keyed
  refine InStep.forM (I := IsCurrent) (fun c c' rest w v heq hcurrent h => ?_)
    (fun c rest w w' hcurrent hrun => ?_) (fun c c' heq => heq ▸ goOn_run hr c) (forall₂_eq cs)
    hcurrent h'
  · subst heq
    exact inStep_run hk hcancelled hpatience hr h (hcurrent.stored c List.mem_cons_self)
  · have halters := alters_run hr.mem_store ctx mode c w
    rw [hrun] at halters
    exact hcurrent.after halters

theorem inStep_onContainer (hr : Same seeker r r') (h : k.Abreast texts w v) (name : String) :
    k.InStep texts (r.onContainer ctx mode name) (r'.onContainer ctx mode name) w v := by
  refine InStep.bind (inStep_container hk h name) (fun c w' v' hrun h' => ?_) fun c => goOn_run hr c
  obtain ⟨hc, rfl⟩ := h.of_run_container hrun
  have hname : c.name = name := h.paired.healthy.keyed name c hc
  refine inStep_run hk hcancelled hpatience hr h' ?_
  rw [World.stored?, hname]
  exact hc

/-! ### Commands -/

theorem inStep_destroy (h : k.Abreast texts w v) (name : String) :
    k.InStep texts (World.onService (Fleet.destroy ctx.patience name))
      (World.onService (Fleet.destroy ctx.patience name)) w v := by
  have hgo (request : Request) : GoOn (World.onService (Service.perform request k.patience))
      (World.onService (Service.perform request k.patience)) :=
    ⟨Service.Keeping.onService (Store.keeping_requests.perform _ _),
      Service.Keeping.onService (Client.keeping_log.perform _ _)⟩
  have hdelete {w : World Store} {v : World Client} {c : Container} (h : k.Abreast texts w v)
      (hc : w.service.containers.get? name = some c) :
      k.InStep texts (World.onService (Service.perform (.delete name) k.patience))
        (World.onService (Service.perform (.delete name) k.patience)) w v :=
    inStep_servicePerform hk hcancelled h
      (Request.isSpellable_delete (h.paired.healthy.isArgument hc)) hc rfl
  rw [hpatience, Fleet.destroy, Fleet.destroy, World.onService_bind, World.onService_bind]
  refine InStep.bind (inStep_container hk h name) (fun c w' v' hrun h' => ?_) fun c => ?_
  · obtain ⟨hc, rfl⟩ := h.of_run_container hrun
    split
    · -- what has been stopped is still there
      rw [World.onService_bind, World.onService_bind]
      refine InStep.bind (inStep_servicePerform hk hcancelled h'
        (Request.isSpellable_stop (h.paired.healthy.isArgument hc)) hc rfl)
        (fun _ w'' v'' hstop h'' => ?_) fun _ => hgo _
      have hstored : w'.service.containers.get? (Request.stop name true).container = some c := hc
      rw [World.run_onService, h.paired.healthy.run_perform hcancelled hstored rfl] at hstop
      cases hstop
      have hstill := Store.get?_withResult (w'.service.logged (.stop name true)) name
        (some { c with status := .stopped, ipv4 := none }) name
      rw [if_pos rfl] at hstill
      exact hdelete h'' hstill
    · exact hdelete h' hc
  · split
    · rw [World.onService_bind, World.onService_bind]
      exact (hgo _).bind fun _ => hgo _
    · exact hgo _

/-! ### All runs -/

omit hk hcancelled hpatience in
theorem inStep_standard {f : Repair Store → Action (World Store) Unit}
    {g : Repair Client → Action (World Client) Unit}
    (hstep : ∀ r r' w v, Same seeker r r' → k.Abreast texts w v →
      k.InStep texts (f r) (g r') w v)
    (hon : ∀ r r', Same seeker r r' → GoOn (f r) (g r')) (h : k.Abreast texts w v) :
    k.InStep texts ((standard seeker).forM f) ((standard seeker).forM g) w v :=
  InStep.forM (I := fun _ _ => True) (fun r r' _ w v hr _ h => hstep r r' w v hr h)
    (fun _ _ _ _ _ _ => trivial) hon (same_standard seeker) trivial h

theorem inStep_of_isRun {x : (β : Type) → [Service β] → Action (World β) α}
    (hx : IsRun ctx seeker x) (h : k.Abreast texts w v) :
    k.InStep texts (x Store) (x Client) w v := by
  have hon (mode : Mode) (r : Repair Store) (r' : Repair Client) (hr : Same seeker r r') :
      GoOn (r.onTargets ctx mode) (r'.onTargets ctx mode) :=
    ⟨Store.keeping_requests.onTargets hr.mem_store, Client.keeping_log.onTargets hr.mem_client⟩
  have hon' (mode : Mode) (name : String) (r : Repair Store) (r' : Repair Client)
      (hr : Same seeker r r') : GoOn (r.onContainer ctx mode name) (r'.onContainer ctx mode name) :=
    ⟨Store.keeping_requests.onContainer hr.mem_store name,
      Client.keeping_log.onContainer hr.mem_client name⟩
  have htargets (mode : Mode) (r : Repair Store) (r' : Repair Client) (w : World Store)
      (v : World Client) (hr : Same seeker r r') (h : k.Abreast texts w v) :
      k.InStep texts (r.onTargets ctx mode) (r'.onTargets ctx mode) w v :=
    inStep_onTargets hk hcancelled hpatience hr h
  have hcontainer (mode : Mode) (name : String) (r : Repair Store) (r' : Repair Client)
      (w : World Store) (v : World Client) (hr : Same seeker r r') (h : k.Abreast texts w v) :
      k.InStep texts (r.onContainer ctx mode name) (r'.onContainer ctx mode name) w v :=
    inStep_onContainer hk hcancelled hpatience hr h name
  cases hx with
  | checkAll => exact inStep_standard (htargets .check) (hon .check) h
  | fixAll =>
    exact InStep.bind (.ofExcept h _)
      (fun _ _ _ _ h' => inStep_standard (htargets .fix) (hon .fix) h') fun _ =>
        GoOn.forM (hon .fix) (same_standard seeker)
  | checkOne name => exact inStep_standard (hcontainer .check name) (hon' .check name) h
  | fixOne name =>
    exact InStep.bind (.ofExcept h _)
      (fun _ _ _ _ h' => inStep_standard (hcontainer .fix name) (hon' .fix name) h') fun _ =>
        GoOn.forM (hon' .fix name) (same_standard seeker)
  | list =>
    unfold Fleet.list
    dsimp only
    rw [World.onService_bind, World.onService_bind]
    exact InStep.bind (inStep_containers hk h) (fun _ _ _ _ h' => .pure h' _) fun _ => .pure _
  | hasContainer name =>
    unfold Fleet.hasContainer
    dsimp only
    rw [World.onService_bind, World.onService_bind]
    exact InStep.bind (inStep_containers hk h) (fun _ _ _ _ h' => .pure h' _) fun _ => .pure _
  | status name =>
    unfold Fleet.status
    dsimp only
    rw [World.onService_bind, World.onService_bind]
    exact InStep.bind (inStep_container hk h name) (fun _ _ _ _ h' => .pure h' _) fun _ => .pure _
  | destroy name => exact inStep_destroy hk hcancelled hpatience h name

end

/-- A run over a store, and the same run over a client in its place. -/
def of (ctx : Context) (w : World Store) (client : Client)
    (x : (β : Type) → [Service β] → Action (World β) α) : Tandem where
  store := w.service
  client := client
  patience := ctx.patience
  calls := (stateOf ((x Store).run w)).service.requests.drop w.service.requests.length
  asked := (stateOf ((x Client).run (w.withService client))).service.log.drop client.log.length

theorem abreast_start {x : (β : Type) → [Service β] → Action (World β) α} {client : Client}
    (hhealthy : w.service.IsHealthy) (hproper : w.tree.IsProper)
    (hdrivers : w.RemembersArguments) :
    (Tandem.of ctx w client x).Abreast w.tree.HasTexts w (w.withService client) where
  same := rfl
  paired := ⟨hhealthy, rfl, rfl, [], [], by rw [List.append_nil]; rfl,
    by rw [List.append_nil]; rfl, rfl, rfl⟩
  proper := hproper
  drivers := hdrivers
  texts := id

theorem within_end {x : (β : Type) → [Service β] → Action (World β) α} (hx : IsRun ctx seeker x)
    (w : World Store) (client : Client) :
    (Tandem.of ctx w client x).Within (stateOf ((x Store).run w)).service
      (stateOf ((x Client).run (w.withService client))).service where
  calls := by
    have hkept : w.service.requests <+: _ := Store.keeping_requests.run hx w
    rw [← List.prefix_iff_eq_append.mp hkept]
    exact List.prefix_rfl
  asked := by
    have hkept : client.log <+: _ := Client.keeping_log.run hx (w.withService client)
    rw [← List.prefix_iff_eq_append.mp hkept]
    exact List.prefix_rfl

end Tandem

/-- A system whose client does nothing but to print the containers of a store, which has
    carried out as many of some requests as the client has been asked for changes. -/
def Launcher.mirroring (s : Store) (calls : List Request) : Launcher :=
  fun _ earlier arguments => .ok {
    stdout :=
      if arguments = listArguments then
        Text.encode (Listing.printed
          (s.carriedOut (calls.take (Client.mutations earlier).length)).containers.values)
      else [] }

theorem Tandem.mirrors_mirroring {k : Tandem} (hprogram : IsArgument k.client.program)
    (hlog : k.client.log = []) (hlaunch : k.client.launch = .mirroring k.store k.calls)
    (h : ∀ n, ∀ c ∈ (k.store.carriedOut (k.calls.take n)).containers.values,
      Listing.IsReportable c) : k.Mirrors := by
  have hlaunch' (earlier : List (List String)) (arguments : List String) :
      (k.client.later earlier).launch (k.client.later earlier).program
        (k.client.later earlier).log arguments = Launcher.mirroring k.store k.calls
          k.client.program earlier arguments := by
    rw [Client.later, hlog, hlaunch, List.nil_append]
  have hstart {earlier : List (List String)} {arguments : List String} {run : ClientRun}
      (hrun : (k.client.later earlier).start arguments = .ok run) :
      run = { stdout :=
        if arguments = listArguments then
          Text.encode (Listing.printed
            (k.store.carriedOut (k.calls.take (Client.mutations earlier).length)).containers.values)
        else [] } := by
    rw [Client.start, hlaunch'] at hrun
    split at hrun
    · cases hrun
    · exact (Except.ok.inj hrun).symm
  refine ⟨fun earlier _ arguments harguments => ?_, fun earlier arguments run _ hrun => ?_,
    fun earlier run _ hrun => ?_, fun earlier arguments run _ hrun hlasts => ?_⟩
  · rw [Client.start, hlaunch', if_neg]
    · exact ⟨_, rfl⟩
    · simpa [Client.later, IsArgument] using ⟨hprogram, harguments.spellable⟩
  · rw [hstart hrun]
  · refine ⟨Listing.printed _, ?_, Listing.renders_printed (h _)⟩
    rw [hstart hrun, if_pos rfl]
  · rw [hstart hrun] at hlasts
    cases hlasts

/-- What the fix of all targets asks for in the mixed fleet. -/
def mixedCalls : List Request :=
  [.removeDevice "a" "data", .removeDevice "c" "data",
    .addDevice "a" "/dev/dri/card0" (.passThrough "/dev/dri/card0"),
    .addDevice "c" "/dev/dri/card0" (.passThrough "/dev/dri/card0")]

/-- A client that does to the mixed fleet what the fix of all targets asks for. -/
def mixedClient : Client := ⟨"lxc", .mirroring mixedFleet.service mixedCalls, [], .empty, 0⟩

/-- The fix of all targets, whatever the service. -/
def fixAnywhere (β : Type) [Service β] : Action (World β) Unit := fixAll (standard "s") {}

end BuildTargets
