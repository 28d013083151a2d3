/-
  BuildTargets/Proofs/CommandLine/Reading.lean
  ============================================
  **Commands that only read.**

  A check and a fix run the same routines, so that a check changes nothing has to
  be proved: it ends at the first point of every script that it follows
  (`Script.stateOf_follow_check`).  What remains of a check are the queries, and
  what these do to the service is a parameter here, the relation `Q`.  For a
  service held in memory `Q` is equality; for the client it says that nothing was
  invoked but the listing.

  `reading_changes_nothing` is about the whole program and about the library.
-/
import BuildTargets.Client.Script
import BuildTargets.CommandLine.Session
import BuildTargets.Proofs.Client
import BuildTargets.Proofs.Repair.Agreement
import BuildTargets.Proofs.Repair.Script

namespace BuildTargets

variable {β α : Type}

namespace World

/-- Nothing has happened from `w` to `w'` but what `Q` lets happen to the
    service. -/
structure Reads (Q : β → β → Prop) (w w' : World β) : Prop where
  service : Q w.service w'.service
  tree : w'.tree = w.tree
  journal : w'.journal = w.journal

end World

/-- What the queries of a service do to it. -/
structure Queries (β : Type) [Service β] (Q : β → β → Prop) : Prop where
  refl : ∀ s, Q s s
  trans : ∀ s s' s'', Q s s' → Q s' s'' → Q s s''
  containers : Keeps Q (Service.containers : Action β (List Container))
  container : ∀ name, Keeps Q (Service.container name : Action β Container)

namespace Queries

variable [Service β] {Q : β → β → Prop}

theorem reads_refl (hQ : Queries β Q) (w : World β) : w.Reads Q w := ⟨hQ.refl _, rfl, rfl⟩

theorem reads_trans (hQ : Queries β Q) (w w' w'' : World β) (h : w.Reads Q w')
    (h' : w'.Reads Q w'') : w.Reads Q w'' :=
  ⟨hQ.trans _ _ _ h.service h'.service, h'.tree.trans h.tree, h'.journal.trans h.journal⟩

theorem pure (hQ : Queries β Q) (a : α) :
    Keeps (World.Reads Q) (pure a : Action (World β) α) := .pure hQ.reads_refl a

theorem bind {γ : Type} (hQ : Queries β Q) {x : Action (World β) α}
    {f : α → Action (World β) γ} (hx : Keeps (World.Reads Q) x)
    (hf : ∀ a, Keeps (World.Reads Q) (f a)) : Keeps (World.Reads Q) (x >>= f) :=
  .bind hQ.reads_trans hx hf

omit [Service β] in
theorem onService {action : Action β α} (h : Keeps Q action) :
    Keeps (World.Reads Q) (World.onService action) := by
  intro w
  have hw := h w.service
  rw [World.run_onService]
  cases hrun : action.run w.service with
  | ok a s =>
    rw [hrun] at hw
    exact ⟨hw, rfl, rfl⟩
  | error e s =>
    rw [hrun] at hw
    exact ⟨hw, rfl, rfl⟩

/-! ### Checks -/

variable {ctx : Context} {seeker : String} {r : Repair β}

/-- A check of a container changes nothing: its script ends with the first
    drift. -/
theorem check (hQ : Queries β Q) (hr : r ∈ Repair.standard seeker) (c : Container) :
    Keeps (World.Reads Q) (r.run ctx .check c) := by
  intro w
  obtain ⟨s, w₀, hrun, hservice, htree, hjournal⟩ :=
    Repair.run_follows ctx .check w c hr
  rw [hrun, Repair.Script.stateOf_follow_check]
  refine ⟨?_, htree, hjournal⟩
  rw [hservice]
  exact hQ.refl w.service

theorem checkTargets (hQ : Queries β Q) (hr : r ∈ Repair.standard seeker) :
    Keeps (World.Reads Q) (r.onTargets ctx .check) := by
  have htargets : Keeps Q (Service.targets : Action β (List Container)) :=
    .bind hQ.trans hQ.containers fun cs => .pure hQ.refl _
  refine hQ.bind (onService htargets) fun cs => ?_
  exact .forM hQ.reads_refl hQ.reads_trans fun c _ => hQ.check hr c

theorem checkContainer (hQ : Queries β Q) (hr : r ∈ Repair.standard seeker) (name : String) :
    Keeps (World.Reads Q) (r.onContainer ctx .check name) :=
  hQ.bind (onService (hQ.container name)) fun c => hQ.check hr c

theorem checkAll (hQ : Queries β Q) :
    Keeps (World.Reads Q) (Repair.checkAll (Repair.standard seeker) ctx) :=
  .forM hQ.reads_refl hQ.reads_trans fun _ hr => hQ.checkTargets hr

theorem checkOne (hQ : Queries β Q) (name : String) :
    Keeps (World.Reads Q) (Repair.checkOne (Repair.standard seeker) ctx name) :=
  .forM hQ.reads_refl hQ.reads_trans fun _ hr => hQ.checkContainer hr name

theorem bridgeReady (hQ : Queries β Q) (file : String) :
    Keeps (World.Reads Q) (Fleet.bridgeReady file) := by
  intro w
  unfold Fleet.bridgeReady
  rw [EStateM.run_bind, EStateM.run_get]
  dsimp only
  cases Bridge.checkFile w.tree file <;> exact hQ.reads_refl w

theorem ready (hQ : Queries β Q) (bridgeFile : Option String) :
    Keeps (World.Reads Q) (Fleet.ready (Repair.standard seeker) ctx bridgeFile) := by
  have hrest : Keeps (World.Reads Q) (do
      let _ ← World.onService Service.containers
      Repair.checkAll (Repair.standard seeker) ctx) :=
    hQ.bind (onService hQ.containers) fun _ => hQ.checkAll
  cases bridgeFile with
  | none => exact hrest
  | some file => exact hQ.bind (hQ.bridgeReady file) fun _ => hrest

end Queries

/-! ### The queries of the two services -/

theorem Store.queries : Queries Store fun s s' => s' = s where
  refl := fun _ => rfl
  trans := fun _ _ _ h h' => h'.trans h
  containers := stateOf_listAll
  container := fun name s => stateOf_find s name

/-- From `c` to `c'` nothing was invoked but the listing. -/
def Client.Lists (c c' : Client) : Prop :=
  ∃ n, c'.log = c.log ++ List.replicate n listArguments

theorem Client.lists_invoked (c : Client) : c.Lists (c.invoked listArguments) := ⟨1, rfl⟩

theorem Client.lists_refl (c : Client) : c.Lists c := ⟨0, (List.append_nil _).symm⟩

theorem Client.queries : Queries Client Client.Lists where
  refl := lists_refl
  trans := by
    rintro c c' c'' ⟨n, h⟩ ⟨n', h'⟩
    refine ⟨n + n', ?_⟩
    rw [h', h, List.append_assoc, List.replicate_append_replicate]
  containers := by
    intro c
    rw [Client.service_containers, run_listAll]
    split
    · split <;> exact c.lists_invoked
    · exact c.lists_refl
  container := by
    intro name c
    rw [Client.service_container, run_find]
    split
    · split
      · split <;> exact c.lists_invoked
      · exact c.lists_invoked
    · exact c.lists_refl

/-! ### Commands -/

/-- Whether a command only reads. -/
def Command.reads : Command → Bool
  | .list | .exist _ | .rootfs _ | .status _ | .initialized _ | .check _ => true
  | .destroy _ | .autofix | .fix _ => false

namespace CommandLine

theorem reads_perform {i : Invocation} (ctx : Context) (hreads : i.command.reads = true) :
    Keeps (World.Reads Client.Lists) (perform i ctx : Action (World Client) (Option Report)) := by
  have hQ := Client.queries
  obtain ⟨command, client, dataDir, hostRoot, bridgeFile, timeout, json, verbose, confined⟩ := i
  cases command with
  | list =>
    have hlist : Keeps Client.Lists (Fleet.list : Action Client (List Target)) :=
      .bind hQ.trans hQ.containers fun cs => .pure hQ.refl _
    exact hQ.bind (Queries.onService hlist) fun _ => hQ.pure _
  | exist name =>
    have hfound : Keeps Client.Lists (Fleet.hasContainer name : Action Client Bool) :=
      .bind hQ.trans hQ.containers fun cs => .pure hQ.refl _
    refine hQ.bind (Queries.onService hfound) fun found => ?_
    cases found with
    | true => exact hQ.pure _
    | false => exact fun w => hQ.reads_refl w
  | rootfs name => exact hQ.pure _
  | status name =>
    have hstatus : Keeps Client.Lists (Fleet.status name : Action Client StatusReport) :=
      .bind hQ.trans (hQ.container name) fun c => .pure hQ.refl _
    exact hQ.bind (Queries.onService hstatus) fun _ => hQ.pure _
  | initialized ignoreBridge => exact hQ.bind (hQ.ready _) fun _ => hQ.pure _
  | check name =>
    cases name with
    | none => exact hQ.bind hQ.checkAll fun _ => hQ.pure _
    | some name => exact hQ.bind (hQ.checkOne name) fun _ => hQ.pure _
  | destroy name => cases hreads
  | autofix => cases hreads
  | fix name => cases hreads

/-- A transcript shows the world that the command has left. -/
theorem transcript_of_execute (i : Invocation) (launch : Launcher) (tree : Tree)
    (privileged : Bool) :
    let end' := stateOf ((perform i (context i privileged)).run
      { service := { program := i.client, launch := launch : Client }, tree := tree })
    (execute i launch tree privileged).calls = end'.service.log ∧
      (execute i launch tree privileged).tree = end'.tree := by
  unfold execute EStateM.run
  dsimp only
  cases perform i (context i privileged)
      { service := { program := i.client, launch := launch : Client }, tree := tree } with
  | ok report w => exact ⟨rfl, rfl⟩
  | error f w => exact ⟨rfl, rfl⟩

theorem run_of_parse {env : Environment} {args : List String} {i : Invocation}
    (h : parse env args = .ok i) (launch : Launcher) (tree : Tree) (privileged : Bool) :
    run env args launch tree privileged = execute i launch tree privileged := by
  unfold run
  rw [h]

/-- Commands that only read invoke the client for nothing but its listing and
    leave the host as it is; and the checks of the library leave everything as
    it is, whatever they find. -/
theorem reading_changes_nothing :
    (∀ (env : Environment) (args : List String) (launch : Launcher) (tree : Tree)
        (privileged : Bool) (i : Invocation),
      parse env args = .ok i → i.command.reads = true →
      (∀ call ∈ (run env args launch tree privileged).calls, call = listArguments) ∧
      (∀ name, i.command = .rootfs name → (run env args launch tree privileged).calls = []) ∧
      (run env args launch tree privileged).tree = tree) ∧
    ∀ (ctx : Context) (seeker : String) (w : World Store),
      w.Same (stateOf ((Repair.checkAll (Repair.standard seeker) ctx).run w)) ∧
      (∀ name, w.Same (stateOf ((Repair.checkOne (Repair.standard seeker) ctx name).run w))) ∧
      (∀ bridgeFile,
        w.Same (stateOf ((Fleet.ready (Repair.standard seeker) ctx bridgeFile).run w))) ∧
      ∀ r ∈ Repair.standard seeker,
        w.Same (stateOf ((r.onTargets ctx .check).run w)) ∧
        ∀ name, w.Same (stateOf ((r.onContainer ctx .check name).run w)) := by
  refine ⟨?_, fun ctx seeker w => ?_⟩
  · intro env args launch tree privileged i hparse hreads
    obtain ⟨hcalls, htree⟩ := transcript_of_execute i launch tree privileged
    have hkeeps := reads_perform (context i privileged) hreads
      { service := { program := i.client, launch := launch }, tree := tree }
    rw [run_of_parse hparse]
    refine ⟨?_, ?_, htree.trans hkeeps.tree⟩
    · obtain ⟨n, hlog⟩ := hkeeps.service
      intro call hcall
      rw [hcalls, hlog] at hcall
      exact List.eq_of_mem_replicate hcall
    · intro name hname
      rw [hcalls]
      unfold perform
      rw [hname]
      rfl
  · have hsame {x : Action (World Store) Unit} (h : Keeps (World.Reads fun s s' => s' = s) x) :
        w.Same (stateOf (x.run w)) := ⟨(h w).service, (h w).tree, (h w).journal⟩
    have hQ := Store.queries
    exact ⟨hsame hQ.checkAll, fun name => hsame (hQ.checkOne name),
      fun bridgeFile => hsame (hQ.ready bridgeFile),
      fun r hr => ⟨hsame (hQ.checkTargets hr), fun name => hsame (hQ.checkContainer hr name)⟩⟩

/-- A client that lists one build target, whose directory is missing. -/
def oneTarget : Launcher := Launcher.scripted [{
  arguments := listArguments
  run := { stdout := Text.encode ("[\x7b\"name\":\"c\",\"config\":\x7b" ++
    "\"user.click-architecture\":\"amd64\",\"user.click-framework\":\"f\"\x7d\x7d]") } }]

/-- A check that fails at the first target, and the listing that it takes. -/
theorem reading_changes_nothing_missing_directory :
    let transcript := run {} ["check"] oneTarget Tree.bare true
    parse {} ["check"] = .ok { command := .check none } ∧
      transcript.exitStatus = failureStatus ∧
      transcript.calls = [listArguments] ∧
      (∀ call ∈ transcript.calls, call = listArguments) ∧
      transcript.tree = Tree.bare := by
  intro transcript
  have hparse : parse {} ["check"] = .ok { command := .check none } := by decide +kernel
  have h := reading_changes_nothing.1 {} ["check"] oneTarget Tree.bare true _ hparse rfl
  have hrun : transcript = execute { command := .check none } oneTarget Tree.bare true :=
    run_of_parse hparse oneTarget Tree.bare true
  have hend : transcript.exitStatus = failureStatus ∧ transcript.calls = [listArguments] := by
    rw [hrun]
    decide +kernel
  exact ⟨hparse, hend.1, hend.2, h.1, h.2.2⟩

end CommandLine

end BuildTargets
