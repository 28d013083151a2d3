/-
  BuildTargets/Proofs/FailStop.lean
  =================================
  **A failure of the client stops a run.**

  A run over the client is a sequence of events: listings, requests and changes
  of the host (`Unfolds`).  Each invocation is answered by the launcher, and
  nothing is assumed about its answers: a listing may contradict the requests
  before it, and any request may fail.

  A request that fails is the last event of its run, and the run ends in the
  failure of this request (`FailStop`).  So nothing is swallowed, neither by a
  loop nor by a sequence; there is one rule for each way of putting actions
  together (`Stops.bind`, `Stops.forM`).
-/
import BuildTargets.Fleet
import BuildTargets.Proofs.Client
import BuildTargets.Proofs.Repair.Script

namespace BuildTargets

open Repair (standard)

/-! ### Events -/

/-- Something that a run does outside itself. -/
inductive Event where
  /-- The client has been run for its listing. -/
  | listed (run : ClientRun)
  /-- The client has been run for a request. -/
  | asked (request : Request) (run : ClientRun)
  | changed (change : HostChange)

/-- No request that has failed. -/
def Event.isClean : Event → Bool
  | listed _ => true
  | asked _ run => run.status.isSuccess
  | changed _ => true

/-- One invocation of the client, with what the launcher made of it. -/
structure Client.Invokes (c : Client) (arguments : List String) (run : ClientRun) (c' : Client) :
    Prop where
  started : c.start arguments = .ok run
  log : c'.log = c.log ++ [arguments]
  program : c'.program = c.program
  launch : c'.launch = c.launch

/-- What an event does to the world. -/
inductive Happens (w w' : World Client) : Event → Prop where
  | listed {run} (hclient : w.service.Invokes listArguments run w'.service)
      (htree : w'.tree = w.tree) : Happens w w' (.listed run)
  | asked {request run} (hclient : w.service.Invokes request.arguments run w'.service)
      (htree : w'.tree = w.tree) : Happens w w' (.asked request run)
  | changed {change : HostChange} (hclient : w'.service = w.service)
      (htree : change.apply w.tree = .ok w'.tree) : Happens w w' (.changed change)

/-- The events that lead from one world to another, all of them and in their
    order. -/
inductive Unfolds : World Client → List Event → World Client → Prop where
  | nil {w w'} (hclient : w'.service = w.service) (htree : w'.tree = w.tree) : Unfolds w [] w'
  | cons {w w₁ w' e es} (h : Happens w w₁ e) (h' : Unfolds w₁ es w') : Unfolds w (e :: es) w'

namespace Unfolds

variable {w w₁ w' : World Client} {es es' : List Event}

theorem refl (w : World Client) : Unfolds w [] w := .nil rfl rfl

theorem single {e : Event} (h : Happens w w' e) : Unfolds w [e] w' := .cons h (.refl w')

/-- Only the client and the tree count. -/
theorem shift (hclient : w₁.service = w.service) (htree : w₁.tree = w.tree)
    (h : Unfolds w₁ es w') : Unfolds w es w' := by
  cases h with
  | nil hclient' htree' => exact .nil (hclient'.trans hclient) (htree'.trans htree)
  | cons h h' =>
    refine .cons ?_ h'
    cases h with
    | listed hi ht => exact .listed (hclient ▸ hi) (ht.trans htree)
    | asked hi ht => exact .asked (hclient ▸ hi) (ht.trans htree)
    | changed hs ht => exact .changed (hs.trans hclient) (htree ▸ ht)

theorem append (h : Unfolds w es w₁) (h' : Unfolds w₁ es' w') : Unfolds w (es ++ es') w' := by
  induction h with
  | nil hclient htree => exact h'.shift hclient htree
  | cons hfirst _ ih => exact .cons hfirst (ih h')

end Unfolds

/-! ### Stopping at the first failure -/

variable {α γ : Type}

/-- How a run may go: no request fails, or the last event is a request that
    fails and the run ends in its failure. -/
inductive Course (w : World Client) : EStateM.Result Failure (World Client) α → Prop where
  | clean {es r} (hevents : Unfolds w es (stateOf r)) (hclean : ∀ e ∈ es, e.isClean = true) :
      Course w r
  | stopped {es request run detail w'} (hevents : Unfolds w (es ++ [.asked request run]) w')
      (hclean : ∀ e ∈ es, e.isClean = true) (hfailed : Client.outcome run = .failure detail) :
      Course w (.error (.operationFailed request.description detail) w')

theorem Course.shift {w w₀ : World Client} {r : EStateM.Result Failure (World Client) α}
    (hclient : w₀.service = w.service) (htree : w₀.tree = w.tree) (h : Course w₀ r) :
    Course w r := by
  cases h with
  | clean hevents hclean => exact .clean (hevents.shift hclient htree) hclean
  | stopped hevents hclean hfailed => exact .stopped (hevents.shift hclient htree) hclean hfailed

theorem Course.none {w : World Client} {r : EStateM.Result Failure (World Client) α}
    (hclient : (stateOf r).service = w.service) (htree : (stateOf r).tree = w.tree) :
    Course w r :=
  .clean (.nil hclient htree) fun _ he => absurd he List.not_mem_nil

theorem Course.one {w : World Client} {r : EStateM.Result Failure (World Client) α} {e : Event}
    (h : Happens w (stateOf r) e) (hclean : e.isClean = true) : Course w r := by
  refine .clean (.single h) fun e' he' => ?_
  cases List.mem_singleton.mp he'
  exact hclean

/-- Every run of an action stops at the first request that fails. -/
def Stops (x : Action (World Client) α) : Prop := ∀ w, Course w (x.run w)

namespace Stops

theorem of_no_event {x : Action (World Client) α}
    (hclient : ∀ w, (stateOf (x.run w)).service = w.service)
    (htree : ∀ w, (stateOf (x.run w)).tree = w.tree) : Stops x :=
  fun w => .none (hclient w) (htree w)

theorem pure (a : α) : Stops (pure a : Action (World Client) α) :=
  of_no_event (fun _ => rfl) fun _ => rfl

theorem throw (e : Failure) : Stops (throw e : Action (World Client) α) :=
  of_no_event (fun _ => rfl) fun _ => rfl

theorem bind {x : Action (World Client) α} {f : α → Action (World Client) γ} (hx : Stops x)
    (hf : ∀ a, Stops (f a)) : Stops (x >>= f) := by
  intro w
  have hfirst := hx w
  rw [EStateM.run_bind]
  cases hr : x.run w with
  | error e w₁ =>
    rw [hr] at hfirst
    cases hfirst with
    | clean hevents hclean => exact .clean hevents hclean
    | stopped hevents hclean hfailed => exact .stopped hevents hclean hfailed
  | ok a w₁ =>
    rw [hr] at hfirst
    cases hfirst with
    | @clean es _ hevents hclean =>
      have hrest := hf a w₁
      dsimp only
      generalize (f a).run w₁ = r at hrest
      cases hrest with
      | clean hevents' hclean' =>
        refine .clean (hevents.append hevents') fun e he => ?_
        exact (List.mem_append.mp he).elim (hclean e) (hclean' e)
      | @stopped es' request run detail w' hevents' hclean' hfailed =>
        have hall := hevents.append hevents'
        rw [← List.append_assoc] at hall
        refine .stopped hall (fun e he => ?_) hfailed
        exact (List.mem_append.mp he).elim (hclean e) (hclean' e)

theorem forM {f : α → Action (World Client) Unit} {l : List α} (hf : ∀ a ∈ l, Stops (f a)) :
    Stops (l.forM f) := by
  induction l with
  | nil => exact pure ()
  | cons a rest ih =>
    rw [List.forM_eq_forM, List.forM_cons]
    have hrest : Stops (rest.forM f) := ih fun b hb => hf b (List.mem_cons_of_mem _ hb)
    exact (hf a List.mem_cons_self).bind fun _ => hrest

/-! ### The actions of which runs are made -/

theorem change (c : HostChange) (explain : IoError → Failure) :
    Stops (World.change c explain : Action (World Client) Unit) := by
  intro w
  rw [World.run_change]
  cases happly : c.apply w.tree with
  | error e => exact .none rfl rfl
  | ok t => exact .one (.changed rfl happly) rfl

theorem invokes_invoked {c : Client} {arguments : List String} {run : ClientRun}
    (h : c.start arguments = .ok run) : c.Invokes arguments run (c.invoked arguments) :=
  ⟨h, rfl, rfl, rfl⟩

theorem listing {w : World Client} {run : ClientRun}
    {r : EStateM.Result Failure (World Client) α}
    (hstart : w.service.start listArguments = .ok run)
    (hclient : (stateOf r).service = w.service.invoked listArguments)
    (htree : (stateOf r).tree = w.tree) : Course w r := by
  have hinvokes := invokes_invoked hstart
  rw [← hclient] at hinvokes
  exact .one (.listed hinvokes htree) rfl

theorem containers : Stops (World.onService Service.containers : Action (World Client) _) := by
  intro w
  rw [World.run_onService, Client.service_containers, Client.run_listAll]
  cases hstart : w.service.start listArguments with
  | error e => exact .none rfl rfl
  | ok run =>
    dsimp only
    cases w.service.listing run with
    | error e => exact listing hstart rfl rfl
    | ok cs => exact listing hstart rfl rfl

theorem container (name : String) :
    Stops (World.onService (Service.container name) : Action (World Client) _) := by
  intro w
  rw [World.run_onService, Client.service_container, Client.run_find]
  cases hstart : w.service.start listArguments with
  | error e => exact .none rfl rfl
  | ok run =>
    dsimp only
    cases w.service.listing run with
    | error e => exact listing hstart rfl rfl
    | ok cs =>
      dsimp only
      cases cs.find? (·.name = name) with
      | none => exact listing hstart rfl rfl
      | some c => exact listing hstart rfl rfl

/-- A request is one event, and it fails as its process does. -/
theorem request {w : World Client} {request : Request} {run : ClientRun}
    {r : EStateM.Result Failure (World Client) Unit}
    (hstart : w.service.start request.arguments = .ok run)
    (hclient : (stateOf r).service = w.service.settled request)
    (htree : (stateOf r).tree = w.tree) (hresult : resultOf r = Client.verdict request run) :
    Course w r := by
  have hinvokes : w.service.Invokes request.arguments run (stateOf r).service := by
    rw [hclient]
    exact ⟨hstart, rfl, rfl, rfl⟩
  have hasked : Happens w (stateOf r) (.asked request run) := .asked hinvokes htree
  unfold Client.verdict at hresult
  cases houtcome : Client.outcome run with
  | success => exact .one hasked ((Client.outcome_eq_success_iff run).mp houtcome)
  | failure detail =>
    rw [houtcome] at hresult
    cases r with
    | ok u w' => cases hresult
    | error e w' =>
      cases hresult
      have hevents : Unfolds w ([] ++ [.asked request run]) w' := .single hasked
      exact .stopped hevents (fun _ he => absurd he List.not_mem_nil) houtcome

theorem servicePerform (request : Request) :
    Stops (World.onService (Service.perform request {}) : Action (World Client) Unit) := by
  intro w
  rw [World.run_onService, Client.run_perform]
  cases hstart : w.service.start request.arguments with
  | error e => exact .none rfl rfl
  | ok run =>
    dsimp only
    cases hverdict : Client.verdict request run with
    | ok u => exact Stops.request hstart rfl rfl hverdict.symm
    | error e => exact Stops.request hstart rfl rfl hverdict.symm

theorem perform {ctx : Context} (hpatience : ctx.patience = {}) (request : Request) :
    Stops (World.perform ctx request : Action (World Client) Unit) := by
  intro w
  unfold World.perform
  rw [EStateM.run_bind, World.run_onService, Client.service_submit, Client.run_accept, hpatience]
  cases hstart : w.service.start request.arguments with
  | error e => exact .none rfl rfl
  | ok run =>
    dsimp only
    rw [EStateM.run_bind]
    change Course w ((World.onService (Service.settle _ {})).run _)
    rw [World.run_onService]
    dsimp only
    rw [Client.run_settle]
    cases hverdict : Client.verdict request run with
    | ok u => exact Stops.request hstart rfl rfl hverdict.symm
    | error e => exact Stops.request hstart rfl rfl hverdict.symm

/-! ### Repairs and removals -/

variable {ctx : Context} {mode : Mode} {seeker : String}

theorem make (hpatience : ctx.patience = {}) (m : Repair.Move) :
    Stops (m.make ctx : Action (World Client) Unit) := by
  cases m with
  | ask request => exact perform hpatience request
  | reshape changes explain => exact forM fun c _ => change c explain

theorem follow (hpatience : ctx.patience = {}) (s : Repair.Script) :
    Stops (s.follow ctx mode : Action (World Client) Unit) := by
  have hpoint (p : Repair.Point) :
      Stops (Repair.meet mode p.drift (p.remedy.forM (·.make ctx)) :
        Action (World Client) Unit) := by
    cases mode with
    | check => exact throw _
    | fix => exact forM fun m _ => make hpatience m
  refine bind (forM fun p _ => hpoint p) fun _ => ?_
  cases s.ending with
  | ok u => exact pure u
  | error e => exact throw e

theorem run {r : Repair Client} (hpatience : ctx.patience = {}) (hr : r ∈ standard seeker)
    (c : Container) : Stops (r.run ctx mode c) := by
  intro w
  obtain ⟨s, w₀, hrun, hservice, htree, -⟩ :=
    Repair.run_follows ctx mode w c hr
  rw [hrun]
  exact (follow hpatience s w₀).shift hservice htree

theorem onTargets {r : Repair Client} (hpatience : ctx.patience = {}) (hr : r ∈ standard seeker) :
    Stops (r.onTargets ctx mode) := by
  have htargets : Stops (World.onService Service.targets : Action (World Client) _) := by
    unfold Service.targets
    rw [World.onService_bind]
    exact bind containers fun _ => pure _
  exact bind htargets fun cs => forM fun c _ => run hpatience hr c

theorem onContainer {r : Repair Client} (hpatience : ctx.patience = {}) (hr : r ∈ standard seeker)
    (name : String) : Stops (r.onContainer ctx mode name) :=
  bind (container name) fun c => run hpatience hr c

theorem authorize (repairs : List (Repair Client)) (privileged : Bool) :
    Stops (MonadExcept.ofExcept (Repair.authorize repairs privileged) :
      Action (World Client) Unit) := by
  cases Repair.authorize repairs privileged with
  | ok u => exact pure u
  | error e => exact throw e

theorem fixAll (hpatience : ctx.patience = {}) : Stops (Repair.fixAll (standard seeker) ctx) :=
  bind (authorize _ _) fun _ => forM fun _ hr => onTargets hpatience hr

theorem fixOne (hpatience : ctx.patience = {}) (name : String) :
    Stops (Repair.fixOne (standard seeker) ctx name) :=
  bind (authorize _ _) fun _ => forM fun _ hr => onContainer hpatience hr name

theorem destroy (name : String) :
    Stops (World.onService (Fleet.destroy {} name) : Action (World Client) Unit) := by
  unfold Fleet.destroy
  rw [World.onService_bind]
  refine bind (container name) fun c => ?_
  dsimp only
  split
  · rw [World.onService_bind]
    exact bind (servicePerform _) fun _ => servicePerform _
  · exact servicePerform _

end Stops

/-! ### What this comes to -/

/-- How a run of some events ends. -/
structure FailStop (es : List Event) (r : EStateM.Result Failure (World Client) Unit) : Prop where
  /-- No event but the last is a request that failed. -/
  before : ∀ e ∈ es.dropLast, e.isClean = true
  succeeded : succeeds r = true → ∀ e ∈ es, e.isClean = true
  /-- A request that failed is the last event, and its failure the result. -/
  failed : ∀ request run, .asked request run ∈ es → run.status.isSuccess = false →
    es.getLast? = some (.asked request run) ∧ ∃ detail, Client.outcome run = .failure detail ∧
      r = .error (.operationFailed request.description detail) (stateOf r)

/-- A run is a sequence of events and ends as these tell. -/
def FailsStop (x : Action (World Client) Unit) (w : World Client) : Prop :=
  ∃ es, Unfolds w es (stateOf (x.run w)) ∧ FailStop es (x.run w)

theorem Stops.failsStop {x : Action (World Client) Unit} (hx : Stops x) (w : World Client) :
    FailsStop x w := by
  have h := hx w
  unfold FailsStop
  generalize x.run w = r at h ⊢
  cases h with
  | @clean es _ hevents hclean =>
    refine ⟨es, hevents, fun e he => hclean e (List.dropLast_subset _ he), fun _ => hclean, ?_⟩
    intro request run hmem hfailure
    have hsuccess : run.status.isSuccess = true := hclean _ hmem
    rw [hsuccess] at hfailure
    cases hfailure
  | @stopped es request run detail w' hevents hclean hfailed =>
    refine ⟨es ++ [.asked request run], hevents, ?_, fun hsucceeds => ?_, ?_⟩
    · rw [List.dropLast_concat]
      exact hclean
    · cases hsucceeds
    · intro request' run' hmem hfailure
      rcases List.mem_append.mp hmem with hmem | hmem
      · have hsuccess : run'.status.isSuccess = true := hclean _ hmem
        rw [hsuccess] at hfailure
        cases hfailure
      · cases List.mem_singleton.mp hmem
        exact ⟨List.getLast?_concat, detail, hfailed, rfl⟩

/-- Over the client, with waits that are neither limited nor cancelled, every
    request but the last event of the run has succeeded, a run that succeeds has
    seen no request fail, and a request that fails ends the run at once, in its
    failure: when all targets are fixed, when one container is, and when one is
    destroyed. -/
theorem client_failure_stops (host : HostView) (privileged : Bool) (seeker name : String)
    (w : World Client) :
    let ctx : Context := { host := host, privileged := privileged }
    FailsStop (Repair.fixAll (standard seeker) ctx) w ∧
      FailsStop (Repair.fixOne (standard seeker) ctx name) w ∧
      FailsStop (World.onService (Fleet.destroy ctx.patience name)) w :=
  ⟨(Stops.fixAll rfl).failsStop w, (Stops.fixOne rfl name).failsStop w,
    (Stops.destroy name).failsStop w⟩

end BuildTargets
