/-
  BuildTargets/Proofs/Causes.lean
  ===============================
  **Why a run over the client fails.**

  A run over the client fails for one of three kinds of reasons: the client could not
  be started; its listing ended badly; or the client did what it was asked to, and
  something else was wrong.  In the last case it depends on the mode what this can be:
  a check finds drifts and repairs nothing, and a fix is the other way round
  (`Permitted`).  `Explained` says so of one run, with the events that led to its end,
  and there is one rule for each way of putting actions together.

  That a repair fails in no other way is read off its script (`Script.IsSober`).
-/
import BuildTargets.Proofs.FailStop

namespace BuildTargets

open Repair (standard)

/-! ### What the scripts of repairs fail with -/

/-- A failure to look at the host. -/
def Failure.OfLooking : Failure → Prop
  | inspectionFailed _ _ | io _ => True
  | _ => False

namespace Repair

namespace Script

variable {s s' : Script}

/-- A script whose looking ends well or in a failure to look, and whose changes of the
    host are explained as failed repairs if they fail. -/
structure IsSober (s : Script) : Prop where
  ending : ∀ f, s.ending = .error f → f.OfLooking
  reshapes : ∀ changes explain, .reshape changes explain ∈ s.moves →
    ∀ e, (explain e).failureClass = .repair

theorem OnlyAsks.isSober (h : s.OnlyAsks) (hend : ∀ f, s.ending = .error f → f.OfLooking) :
    s.IsSober := by
  refine ⟨hend, fun changes explain hm => ?_⟩
  obtain ⟨request, heq⟩ := h _ hm
  cases heq

theorem isSober_clear : clear.IsSober :=
  ⟨nofun, fun _ _ hm => absurd hm List.not_mem_nil⟩

theorem isSober_failing {f : Failure} (h : f.OfLooking) : (failing f).IsSober := by
  refine ⟨fun f' hf => ?_, fun _ _ hm => absurd hm List.not_mem_nil⟩
  cases hf
  exact h

theorem IsSober.append (h : s.IsSober) (h' : s'.IsSober) : (s.append s').IsSober := by
  constructor
  · intro f hf
    obtain ⟨points, ending⟩ := s
    cases ending with
    | ok u => exact h'.ending f hf
    | error e => exact h.ending f hf
  · intro changes explain hm
    rcases mem_moves_append hm with hm | hm
    · exact h.reshapes changes explain hm
    · exact h'.reshapes changes explain hm

theorem isSober_all {α : Type} {f : α → Script} {l : List α} (h : ∀ a, (f a).IsSober) :
    (all f l).IsSober := by
  induction l with
  | nil => exact isSober_clear
  | cons a rest ih => exact (h a).append ih

end Script

open Script

variable {host : HostView} {t : Tree} {c : Container}

theorem ofLooking_of_accessOf {container : String} {f : Failure}
    (h : accessOf host t container = .error f) : f.OfLooking := by
  have hpath {f : Failure} (hd : dirPath host t container = .error f) : f.OfLooking := by
    unfold dirPath at hd
    dsimp only at hd
    split at hd
    · split at hd
      · cases hd
      · cases hd; trivial
    · cases hd
    · cases hd; trivial
  unfold accessOf at h
  split at h
  · next hd =>
    cases h
    exact hpath hd
  · split at h
    · cases h
    · cases h; trivial
    · cases h; trivial

theorem isSober_accessScript : (accessScript host t c).IsSober := by
  unfold accessScript
  split
  · next path bits _ =>
    split
    · exact isSober_clear
    · refine ⟨nofun, fun changes explain hm => ?_⟩
      rw [moves_single, List.mem_singleton] at hm
      cases hm
      exact fun _ => rfl
  · next haccess => exact isSober_failing (ofLooking_of_accessOf haccess)

theorem isSober_resourcesScript : (resourcesScript host t c).IsSober := by
  refine isSober_all fun e => (onlyAsks_resourceScript host t c e.1 e.2).isSober fun f hf => ?_
  unfold resourceScript at hf
  split at hf
  · cases hf
  · split at hf <;> cases hf
    trivial

theorem isSober_nodesScript (reason : String) (nodes : Except IoError (List String)) :
    (nodesScript c reason nodes).IsSober := by
  cases nodes with
  | ok nodes =>
    refine isSober_all fun node => (onlyAsks_nodeScript c reason node).isSober fun f hf => ?_
    unfold nodeScript at hf
    split at hf <;> cases hf
  | error e => exact isSober_failing (f := .io e) trivial

theorem isSober_renderNodesScript : (renderNodesScript host t c).IsSober := by
  unfold renderNodesScript
  split
  · exact isSober_clear
  · exact isSober_nodesScript _ _

theorem isSober_librariesScript (driver : Driver) : (librariesScript c driver).IsSober := by
  refine (onlyAsks_librariesScript c driver).isSober fun f hf => ?_
  unfold librariesScript at hf
  dsimp only at hf
  split at hf
  · split at hf <;> cases hf
  · cases hf

theorem isSober_configScript : (configScript host t c).IsSober := by
  unfold configScript
  split
  · exact isSober_clear
  · refine ⟨nofun, fun changes explain hm => ?_⟩
    rw [moves_single, List.mem_singleton] at hm
    cases hm
    exact fun _ => rfl
  · exact isSober_failing trivial

theorem isSober_driverScript (known : Except IoError (Option Driver)) :
    (driverScript host t known c).IsSober := by
  have hparts (driver : Driver) : (driverPartsScript host t c driver).IsSober :=
    (isSober_librariesScript driver).append (isSober_configScript.append (isSober_nodesScript _ _))
  unfold driverScript
  split
  · split
    · exact hparts _
    · exact isSober_clear
    · exact isSober_failing trivial
  · exact isSober_clear
  · exact isSober_failing trivial

/-- Every repair follows a sober script. -/
theorem run_follows_sober {β : Type} [Service β] (ctx : Context) (mode : Mode) (w : World β)
    (c : Container) {r : Repair β} {seeker : String} (hr : r ∈ standard seeker) :
    ∃ s w₀, (r.run ctx mode c).run w = (Script.follow ctx mode s).run w₀ ∧
      w₀.service = w.service ∧ w₀.tree = w.tree ∧ s.IsSober := by
  simp only [standard, List.mem_cons, List.not_mem_nil, or_false] at hr
  rcases hr with rfl | rfl | rfl | rfl
  · exact ⟨_, w, keepAccess_follows w c, rfl, rfl, isSober_accessScript⟩
  · exact ⟨_, w, keepResources_follows w c, rfl, rfl, isSober_resourcesScript⟩
  · exact ⟨_, w, keepRenderNodes_follows w c, rfl, rfl, isSober_renderNodesScript⟩
  · refine ⟨_, _, keepDriver_follows w c seeker, ?_, ?_, isSober_driverScript _⟩
    · unfold recalled
      split <;> rfl
    · unfold recalled
      split <;> rfl

end Repair

/-! ### Waits with any patience -/

namespace Client

theorem failureClass_of_verdict {request : Request} {run : ClientRun} {f : Failure}
    (h : verdict request run = .error f) : f.failureClass = .repair := by
  unfold verdict at h
  split at h
  · cases h
  · cases h
    rfl

/-- Whatever the patience is, the client is settled after the wait, and a wait that
    fails is a failed repair. -/
theorem run_settle_cases (c : Client) (request : Request) (run : ClientRun)
    (patience : Patience) : ∃ result : Except Failure Unit,
      (Service.settle ⟨c.lastId + 1, request.description⟩ patience).run
          { c.invoked request.arguments with
            pending := c.pending.insert (c.lastId + 1) run, lastId := c.lastId + 1 } =
        (match result with
        | .ok _ => .ok () (c.settled request)
        | .error f => .error f (c.settled request)) ∧
      ∀ f, result = .error f → f.failureClass = .repair := by
  refine ⟨waited patience request run, run_settle_eq c request patience run, fun f hf => ?_⟩
  unfold waited at hf
  split at hf
  · split at hf
    · cases hf
      rfl
    · split at hf
      · cases hf
        rfl
      · exact failureClass_of_verdict hf
  · exact failureClass_of_verdict hf

/-- A listing is read, or it ended well and cannot be read, or it ended badly. -/
theorem listing_cases (c : Client) (run : ClientRun) :
    run.status.isSuccess = true ∧
        ((∃ cs, c.listing run = .ok cs) ∨ ∃ detail, c.listing run = .error (.unexpectedAnswer detail)) ∨
      run.status.isSuccess = false ∧ ∃ detail, c.listing run = .error (.unreachable detail) := by
  unfold listing
  cases run.status.isSuccess with
  | false => exact Or.inr ⟨rfl, _, rfl⟩
  | true =>
    refine Or.inl ⟨rfl, ?_⟩
    simp only [if_true]
    cases Listing.read? (Text.decodeLossy run.stdout) with
    | some cs => exact Or.inl ⟨cs, rfl⟩
    | none => exact Or.inr ⟨_, rfl⟩

end Client

/-! ### The invocations of a run -/

/-- One of the invocations between a client and a later log is a listing that came to
    `run`. -/
def Client.Listed (c : Client) (log : List (List String)) (run : ClientRun) : Prop :=
  ∃ earlier later, log = c.log ++ (earlier ++ listArguments :: later) ∧
    (c.later earlier).start listArguments = .ok run

theorem Client.Invokes.start_later {c c' : Client} {arguments : List String} {run : ClientRun}
    (h : c.Invokes arguments run c') (earlier : List (List String)) (next : List String) :
    (c'.later earlier).start next = (c.later (arguments :: earlier)).start next := by
  unfold Client.start Client.later
  simp only [h.program, h.launch, h.log, List.append_assoc, List.singleton_append]

/-- The listings after an invocation, and the invocation itself if it is one. -/
theorem Client.Invokes.listed_iff {c c' : Client} {arguments : List String}
    {run run' : ClientRun} {log calls : List (List String)} (h : c.Invokes arguments run c')
    (hlog : log = c'.log ++ calls) :
    c.Listed log run' ↔ arguments = listArguments ∧ run = run' ∨ c'.Listed log run' := by
  rw [h.log, List.append_assoc, List.singleton_append] at hlog
  constructor
  · rintro ⟨earlier, later, hsplit, hstart⟩
    have hcalls := List.append_cancel_left (hlog.symm.trans hsplit)
    cases earlier with
    | nil =>
      obtain ⟨rfl, -⟩ := List.cons_eq_cons.mp hcalls
      have hsame : c.later [] = c := by simp [Client.later]
      rw [hsame, h.started] at hstart
      exact Or.inl ⟨rfl, Except.ok.inj hstart⟩
    | cons first earlier =>
      rw [List.cons_append] at hcalls
      obtain ⟨rfl, hrest⟩ := List.cons_eq_cons.mp hcalls
      refine Or.inr ⟨earlier, later, ?_, ?_⟩
      · rw [hlog, h.log, hrest, List.append_assoc, List.singleton_append]
      · rw [h.start_later, hstart]
  · rintro (⟨rfl, rfl⟩ | ⟨earlier, later, hsplit, hstart⟩)
    · refine ⟨[], calls, hlog, ?_⟩
      have hsame : c.later [] = c := by simp [Client.later]
      rw [hsame, h.started]
    · refine ⟨arguments :: earlier, later, ?_, ?_⟩
      · rw [hsplit, h.log, List.append_assoc, List.singleton_append, List.cons_append]
      · rw [← h.start_later, hstart]

namespace Unfolds

variable {w w' : World Client} {es : List Event}

theorem program (h : Unfolds w es w') : w'.service.program = w.service.program := by
  induction h with
  | nil hclient _ => rw [hclient]
  | cons h _ ih =>
    cases h with
    | listed hclient _ => exact ih.trans hclient.program
    | asked hclient _ => exact ih.trans hclient.program
    | changed hclient _ => rw [ih, hclient]

theorem launch (h : Unfolds w es w') : w'.service.launch = w.service.launch := by
  induction h with
  | nil hclient _ => rw [hclient]
  | cons h _ ih =>
    cases h with
    | listed hclient _ => exact ih.trans hclient.launch
    | asked hclient _ => exact ih.trans hclient.launch
    | changed hclient _ => rw [ih, hclient]

theorem log (h : Unfolds w es w') : ∃ calls, w'.service.log = w.service.log ++ calls := by
  induction h with
  | nil hclient _ => exact ⟨[], by rw [hclient, List.append_nil]⟩
  | cons h _ ih =>
    obtain ⟨calls, hcalls⟩ := ih
    cases h with
    | listed hclient _ => exact ⟨_ :: calls, by rw [hcalls, hclient.log, List.append_assoc]; rfl⟩
    | asked hclient _ => exact ⟨_ :: calls, by rw [hcalls, hclient.log, List.append_assoc]; rfl⟩
    | changed hclient _ => exact ⟨calls, by rw [hcalls, hclient]⟩

/-- The log tells which listings there were, and the launcher what came of them. -/
theorem listed_iff {run : ClientRun} (h : Unfolds w es w') :
    .listed run ∈ es ↔ w.service.Listed w'.service.log run := by
  induction h with
  | @nil w w' hclient _ =>
    refine ⟨fun hmem => absurd hmem List.not_mem_nil, ?_⟩
    rintro ⟨earlier, later, hsplit, -⟩
    rw [hclient] at hsplit
    simp at hsplit
  | cons h hrest ih =>
    obtain ⟨calls, hlog⟩ := hrest.log
    cases h with
    | listed hclient _ =>
      rw [hclient.listed_iff hlog, ← ih]
      simp [eq_comm]
    | @asked request _ hclient _ =>
      rw [hclient.listed_iff hlog, ← ih]
      simp [request.arguments_ne_list]
    | changed hclient _ =>
      rw [← hclient, ← ih]
      simp

end Unfolds

/-! ### How a run ends -/

/-- What a run may fail with while the client does what it is asked to. -/
inductive Permitted (ctx : Context) (seeker : String) (mode : Mode) (t : Tree) :
    Failure → Prop where
  /-- A check of a container has found a drift. -/
  | drift {d r c w w'} (hmode : mode = .check) (hr : r ∈ standard seeker) (htree : w.tree = t)
      (hrun : ((r : Repair Client).run ctx .check c).run w = .error (.drift d) w') :
      Permitted ctx seeker mode t (.drift d)
  | repair {f} (hmode : mode = .fix) (hclass : f.failureClass = .repair) :
      Permitted ctx seeker mode t f
  | general {f} (hclass : f.failureClass = .general)
      (hbridge : ∀ detail, f ≠ .bridgeNotConfigured detail) : Permitted ctx seeker mode t f

/-- Every listing among some events has ended well. -/
def ListingsSucceed (es : List Event) : Prop := ∀ run, .listed run ∈ es → run.status.isSuccess = true

variable {α γ : Type} {ctx : Context} {seeker : String} {mode : Mode}

/-- The end of a run, explained by the events that led to it. -/
inductive Explained (ctx : Context) (seeker : String) (mode : Mode) (w : World Client) :
    EStateM.Result Failure (World Client) α → Prop where
  | clean {es r} (hevents : Unfolds w es (stateOf r)) (hlisted : ListingsSucceed es)
      (hend : ∀ f w', r = .error f w' → Permitted ctx seeker mode w'.tree f) :
      Explained ctx seeker mode w r
  /-- The client could not be started, for its listing or, by a fix, for a request. -/
  | notStarted {es arguments e w'} (hevents : Unfolds w es w') (hlisted : ListingsSucceed es)
      (hwanted : arguments = listArguments ∨
        mode = .fix ∧ ∃ request : Request, arguments = request.arguments)
      (hstart : w'.service.start arguments = .error e) :
      Explained ctx seeker mode w (.error (w'.service.notStarted e) w')
  /-- The last event is a listing that ended badly. -/
  | notListed {es run detail w'} (hevents : Unfolds w (es ++ [.listed run]) w')
      (hlisted : ListingsSucceed es) (hfailed : run.status.isSuccess = false) :
      Explained ctx seeker mode w (.error (.unreachable detail) w')

theorem listingsSucceed_nil : ListingsSucceed [] := fun _ h => absurd h List.not_mem_nil

theorem ListingsSucceed.append {es es' : List Event} (h : ListingsSucceed es)
    (h' : ListingsSucceed es') : ListingsSucceed (es ++ es') := by
  intro run hmem
  rcases List.mem_append.mp hmem with hmem | hmem
  · exact h run hmem
  · exact h' run hmem

namespace Explained

variable {w w₀ : World Client} {r : EStateM.Result Failure (World Client) α}

/-- Only the client and the tree count. -/
theorem shift (hclient : w₀.service = w.service) (htree : w₀.tree = w.tree)
    (h : Explained ctx seeker mode w₀ r) : Explained ctx seeker mode w r := by
  cases h with
  | clean hevents hlisted hend => exact .clean (hevents.shift hclient htree) hlisted hend
  | notStarted hevents hlisted hwanted hstart =>
    exact .notStarted (hevents.shift hclient htree) hlisted hwanted hstart
  | notListed hevents hlisted hfailed =>
    exact .notListed (hevents.shift hclient htree) hlisted hfailed

theorem none (hclient : (stateOf r).service = w.service) (htree : (stateOf r).tree = w.tree)
    (hend : ∀ f w', r = .error f w' → Permitted ctx seeker mode w'.tree f) :
    Explained ctx seeker mode w r :=
  .clean (.nil hclient htree) listingsSucceed_nil hend

/-- One event that is not a listing, or is one that ended well. -/
theorem one {e : Event} (h : Happens w (stateOf r) e) (hlisted : ListingsSucceed [e])
    (hend : ∀ f w', r = .error f w' → Permitted ctx seeker mode w'.tree f) :
    Explained ctx seeker mode w r := .clean (.single h) hlisted hend

/-- What comes after some events in which nothing went wrong. -/
theorem after {es : List Event} (hevents : Unfolds w es w₀) (hlisted : ListingsSucceed es)
    (h : Explained ctx seeker mode w₀ r) : Explained ctx seeker mode w r := by
  cases h with
  | clean hevents' hlisted' hend =>
    exact .clean (hevents.append hevents') (hlisted.append hlisted') hend
  | notStarted hevents' hlisted' hwanted hstart =>
    exact .notStarted (hevents.append hevents') (hlisted.append hlisted') hwanted hstart
  | notListed hevents' hlisted' hfailed =>
    have hall := hevents.append hevents'
    rw [← List.append_assoc] at hall
    exact .notListed hall (hlisted.append hlisted') hfailed

end Explained

/-- Every run of an action ends in a way that is explained. -/
def Explains (ctx : Context) (seeker : String) (mode : Mode) (x : Action (World Client) α) : Prop :=
  ∀ w, Explained ctx seeker mode w (x.run w)

namespace Explains

theorem pure (a : α) : Explains ctx seeker mode (pure a : Action (World Client) α) :=
  fun _ => .none rfl rfl nofun

theorem throw {f : Failure} (h : ∀ t, Permitted ctx seeker mode t f) :
    Explains ctx seeker mode (throw f : Action (World Client) α) := by
  refine fun w => .none rfl rfl fun f' w' heq => ?_
  cases heq
  exact h w.tree

theorem bind {x : Action (World Client) α} {f : α → Action (World Client) γ}
    (hx : Explains ctx seeker mode x) (hf : ∀ a, Explains ctx seeker mode (f a)) :
    Explains ctx seeker mode (x >>= f) := by
  intro w
  have hfirst := hx w
  rw [EStateM.run_bind]
  cases hrun : x.run w with
  | ok a w₁ =>
    rw [hrun] at hfirst
    cases hfirst with
    | clean hevents hlisted _ => exact (hf a w₁).after hevents hlisted
  | error e w₁ =>
    rw [hrun] at hfirst
    cases hfirst with
    | clean hevents hlisted hend =>
      refine .clean hevents hlisted fun f w' heq => ?_
      cases heq
      exact hend _ _ rfl
    | notStarted hevents hlisted hwanted hstart =>
      exact .notStarted hevents hlisted hwanted hstart
    | notListed hevents hlisted hfailed => exact .notListed hevents hlisted hfailed

theorem forM {f : α → Action (World Client) Unit} {l : List α}
    (hf : ∀ a ∈ l, Explains ctx seeker mode (f a)) : Explains ctx seeker mode (l.forM f) := by
  induction l with
  | nil => exact pure ()
  | cons a rest ih =>
    rw [List.forM_eq_forM, List.forM_cons]
    have hrest : Explains ctx seeker mode (rest.forM f) :=
      ih fun b hb => hf b (List.mem_cons_of_mem _ hb)
    exact (hf a List.mem_cons_self).bind fun _ => hrest

/-! ### Listings -/

/-- What is made of a listing that ended well is explained, if it is permitted. -/
theorem of_listing {w : World Client} {run : ClientRun}
    {r : EStateM.Result Failure (World Client) α}
    (hstart : w.service.start listArguments = .ok run) (hsuccess : run.status.isSuccess = true)
    (hclient : (stateOf r).service = w.service.invoked listArguments)
    (htree : (stateOf r).tree = w.tree)
    (hend : ∀ f w', r = .error f w' → Permitted ctx seeker mode w'.tree f) :
    Explained ctx seeker mode w r := by
  have hinvokes := Stops.invokes_invoked hstart
  rw [← hclient] at hinvokes
  refine .one (.listed hinvokes htree) (fun run' hmem => ?_) hend
  cases List.mem_singleton.mp hmem
  exact hsuccess

theorem of_failed_listing {w : World Client} {run : ClientRun} {detail : String}
    (hstart : w.service.start listArguments = .ok run) (hfailed : run.status.isSuccess = false) :
    Explained ctx seeker mode w (.error (.unreachable detail)
      { w with service := w.service.invoked listArguments } :
        EStateM.Result Failure (World Client) α) := by
  have hevents : Unfolds w ([] ++ [.listed run])
      { w with service := w.service.invoked listArguments } :=
    .single (.listed (Stops.invokes_invoked hstart) rfl)
  exact .notListed hevents listingsSucceed_nil hfailed

/-- A look at the listing: what is made of the containers that it gives is `f`. -/
theorem of_run_listing {x : Action Client α} {f : List Container → Except Failure α}
    (hf : ∀ cs e, f cs = .error e → e.failureClass = .general ∧
      ∀ detail, e ≠ .bridgeNotConfigured detail)
    (hx : ∀ c : Client, x.run c = match c.start listArguments with
      | .ok run => match c.listing run with
        | .ok cs => match f cs with
          | .ok a => .ok a (c.invoked listArguments)
          | .error e => .error e (c.invoked listArguments)
        | .error e => .error e (c.invoked listArguments)
      | .error e => .error (c.notStarted e) c) :
    Explains ctx seeker mode (World.onService x : Action (World Client) α) := by
  intro w
  rw [World.run_onService, hx]
  cases hstart : w.service.start listArguments with
  | error e => exact .notStarted (.refl w) listingsSucceed_nil (Or.inl rfl) hstart
  | ok run =>
    dsimp only
    rcases w.service.listing_cases run with ⟨hsuccess, ⟨cs, hcs⟩ | ⟨detail, hcs⟩⟩ |
      ⟨hfailed, detail, hcs⟩
    · rw [hcs]
      dsimp only
      cases ha : f cs with
      | ok a => exact of_listing hstart hsuccess rfl rfl nofun
      | error e =>
        refine of_listing hstart hsuccess rfl rfl fun f' w' heq => ?_
        cases heq
        obtain ⟨hclass, hbridge⟩ := hf cs e ha
        exact .general hclass hbridge
    · rw [hcs]
      refine of_listing hstart hsuccess rfl rfl fun f' w' heq => ?_
      cases heq
      exact .general rfl nofun
    · rw [hcs]
      exact of_failed_listing hstart hfailed

theorem containers :
    Explains ctx seeker mode (World.onService Service.containers : Action (World Client) _) :=
  of_run_listing (f := .ok) nofun fun c => Client.run_listAll c

theorem container (name : String) :
    Explains ctx seeker mode (World.onService (Service.container name) : Action (World Client) _) := by
  refine of_run_listing (f := fun cs => (cs.find? (·.name = name)).elim
    (.error (.noContainer name)) .ok) (fun cs e he => ?_) fun c => ?_
  · cases hfound : cs.find? (·.name = name) with
    | some found =>
      rw [hfound] at he
      cases he
    | none =>
      rw [hfound] at he
      cases he
      exact ⟨rfl, nofun⟩
  · rw [Client.service_container, Client.run_find]
    cases c.start listArguments with
    | error e => rfl
    | ok run =>
      dsimp only
      cases c.listing run with
      | error e => rfl
      | ok cs =>
        dsimp only
        cases cs.find? (·.name = name) <;> rfl

/-! ### Requests and changes of the host -/

theorem of_request {w : World Client} {request : Request} {run : ClientRun}
    {r : EStateM.Result Failure (World Client) Unit}
    (hstart : w.service.start request.arguments = .ok run)
    (hclient : (stateOf r).service = w.service.settled request)
    (htree : (stateOf r).tree = w.tree)
    (hend : ∀ f w', r = .error f w' → f.failureClass = .repair) :
    Explained ctx seeker .fix w r := by
  have hinvokes : w.service.Invokes request.arguments run (stateOf r).service := by
    rw [hclient]
    exact ⟨hstart, rfl, rfl, rfl⟩
  refine .one (.asked hinvokes htree) (fun run' hmem => ?_) fun f w' heq => ?_
  · cases List.mem_singleton.mp hmem
  · exact .repair rfl (hend f w' heq)

/-- A request that is made and waited for, whatever is put down in the journal meanwhile. -/
theorem submitted {request : Request} {patience : Patience}
    {rest : Operation → Action (World Client) Unit}
    (hrest : ∀ op w, ∃ journal, (rest op).run w =
      (World.onService (Service.settle op patience)).run { w with journal := journal }) :
    Explains ctx seeker .fix (World.onService (Service.submit request) >>= rest) := by
  intro w
  rw [EStateM.run_bind, World.run_onService, Client.service_submit, Client.run_accept]
  cases hstart : w.service.start request.arguments with
  | error e => exact .notStarted (.refl w) listingsSucceed_nil (Or.inr ⟨rfl, request, rfl⟩) hstart
  | ok run =>
    dsimp only
    obtain ⟨journal, hrun⟩ := hrest ⟨w.service.lastId + 1, request.description⟩
      { w with service := { w.service.invoked request.arguments with
        pending := w.service.pending.insert (w.service.lastId + 1) run
        lastId := w.service.lastId + 1 } }
    rw [hrun, World.run_onService]
    obtain ⟨result, hsettle, hclass⟩ := w.service.run_settle_cases request run patience
    dsimp only
    rw [hsettle]
    cases result with
    | ok u => exact of_request hstart rfl rfl nofun
    | error f =>
      refine of_request hstart rfl rfl fun f' w' heq => ?_
      cases heq
      exact hclass f rfl

theorem servicePerform (request : Request) (patience : Patience) :
    Explains ctx seeker .fix
      (World.onService (Service.perform request patience) : Action (World Client) Unit) := by
  unfold Service.perform
  rw [World.onService_bind]
  exact submitted fun _ w => ⟨w.journal, rfl⟩

theorem perform (request : Request) :
    Explains ctx seeker .fix (World.perform ctx request : Action (World Client) Unit) :=
  submitted fun _ _ => ⟨_, rfl⟩

theorem change (c : HostChange) {explain : IoError → Failure}
    (hexplain : ∀ e, (explain e).failureClass = .repair) :
    Explains ctx seeker .fix (World.change c explain : Action (World Client) Unit) := by
  intro w
  rw [World.run_change]
  cases happly : c.apply w.tree with
  | ok t =>
    refine .one (.changed rfl happly) (fun run hmem => ?_) nofun
    cases List.mem_singleton.mp hmem
  | error e =>
    refine .none rfl rfl fun f w' heq => ?_
    cases heq
    exact .repair rfl (hexplain e)

/-! ### Repairs -/

theorem of_looking {f : Failure} (h : f.OfLooking) (t : Tree) : Permitted ctx seeker mode t f := by
  cases f with
  | inspectionFailed container detail => exact .general rfl nofun
  | io e => exact .general rfl nofun
  | _ => cases h

theorem fix {s : Repair.Script} (hs : s.IsSober) :
    Explains ctx seeker .fix (s.follow ctx .fix : Action (World Client) Unit) := by
  rw [Repair.Script.follow_fix]
  refine bind (forM fun m hm => ?_) fun _ => ?_
  · cases m with
    | ask request => exact perform request
    | reshape changes explain => exact forM fun c _ => change c (hs.reshapes changes explain hm)
  · cases hending : s.ending with
    | ok u => exact pure u
    | error f => exact throw (of_looking (hs.ending f hending))

variable {r : Repair Client}

/-- A repair of one container.  A check of it ends with the first drift, if its looking
    comes to one. -/
theorem run (hr : r ∈ standard seeker) (c : Container) :
    Explains ctx seeker mode (r.run ctx mode c) := by
  intro w
  obtain ⟨s, w₀, hrun, hservice, htree, hs⟩ := Repair.run_follows_sober ctx mode w c hr
  cases mode with
  | fix =>
    rw [hrun]
    exact (fix hs w₀).shift hservice htree
  | check =>
    have hstate : stateOf ((r.run ctx .check c).run w) = w₀ := by
      rw [hrun, Repair.Script.stateOf_follow_check]
    refine .none (by rw [hstate, hservice]) (by rw [hstate, htree]) fun f w' hf => ?_
    obtain rfl : w' = w₀ := by
      rw [hf] at hstate
      exact hstate
    obtain ⟨points, ending⟩ := s
    cases points with
    | nil =>
      rw [hrun] at hf
      cases ending with
      | ok u => cases hf
      | error f' =>
        cases hf
        exact of_looking (hs.ending f rfl) _
    | cons p rest =>
      obtain rfl : f = .drift p.drift := by
        rw [hrun] at hf
        cases hf
        rfl
      exact .drift rfl hr htree.symm hf

theorem onTargets (hr : r ∈ standard seeker) : Explains ctx seeker mode (r.onTargets ctx mode) := by
  have htargets : Explains ctx seeker mode
      (World.onService Service.targets : Action (World Client) _) := by
    unfold Service.targets
    rw [World.onService_bind]
    exact bind containers fun _ => pure _
  exact bind htargets fun cs => forM fun c _ => run hr c

theorem onContainer (hr : r ∈ standard seeker) (name : String) :
    Explains ctx seeker mode (r.onContainer ctx mode name) :=
  bind (container name) fun c => run hr c

theorem authorize (repairs : List (Repair Client)) (privileged : Bool) :
    Explains ctx seeker .fix (MonadExcept.ofExcept (Repair.authorize repairs privileged) :
      Action (World Client) Unit) := by
  unfold Repair.authorize
  dsimp only
  split
  · exact pure ()
  · exact throw fun t => .repair rfl rfl

theorem checkAll : Explains ctx seeker .check (Repair.checkAll (standard seeker) ctx) :=
  forM fun _ hr => onTargets hr

theorem checkOne (name : String) :
    Explains ctx seeker .check (Repair.checkOne (standard seeker) ctx name) :=
  forM fun _ hr => onContainer hr name

theorem fixAll : Explains ctx seeker .fix (Repair.fixAll (standard seeker) ctx) :=
  bind (authorize _ _) fun _ => forM fun _ hr => onTargets hr

theorem fixOne (name : String) :
    Explains ctx seeker .fix (Repair.fixOne (standard seeker) ctx name) :=
  bind (authorize _ _) fun _ => forM fun _ hr => onContainer hr name

theorem destroy (patience : Patience) (name : String) :
    Explains ctx seeker .fix
      (World.onService (Fleet.destroy patience name) : Action (World Client) Unit) := by
  unfold Fleet.destroy
  rw [World.onService_bind]
  refine bind (container name) fun c => ?_
  dsimp only
  split
  · rw [World.onService_bind]
    exact bind (servicePerform _ _) fun _ => servicePerform _ _
  · exact servicePerform _ _

/-- Readiness without a look at the bridge. -/
theorem ready : Explains ctx seeker .check (Fleet.ready (standard seeker) ctx none) :=
  bind containers fun _ => checkAll

end Explains

end BuildTargets
