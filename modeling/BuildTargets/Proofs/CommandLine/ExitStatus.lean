/-
  BuildTargets/Proofs/CommandLine/ExitStatus.lean
  ===============================================
  **What the exit status tells.**

  A command ends in one of five exit statuses, and each has one meaning, whatever the
  host is like and however the client behaves (`exit_status_tells`).  The bridge is the
  first thing that is looked at, so its status does not depend on the client at all.
  For the rest the run of a command is explained in the mode that it runs in
  (`explains_perform`); a command that neither checks nor changes anything can be taken
  for a run in either mode, and so finds no drift and repairs nothing.
-/
import BuildTargets.Proofs.Causes
import BuildTargets.Proofs.CommandLine.Reading

namespace BuildTargets

open Repair (standard)

/-! ### Exit statuses of failures -/

namespace Failure

variable {f : Failure}

theorem exitStatus_eq_bridge_iff :
    f.exitStatus = bridgeStatus ↔ ∃ detail, f = .bridgeNotConfigured detail := by
  cases f <;> simp [exitStatus, failureClass, bridgeStatus, unreachableStatus, driftStatus,
    failureStatus]

theorem exitStatus_eq_drift_iff : f.exitStatus = driftStatus ↔ ∃ d, f = .drift d := by
  cases f <;> simp [exitStatus, failureClass, bridgeStatus, unreachableStatus, driftStatus,
    failureStatus]

theorem exitStatus_eq_unreachable_iff :
    f.exitStatus = unreachableStatus ↔ ∃ detail, f = .unreachable detail := by
  cases f <;> simp [exitStatus, failureClass, bridgeStatus, unreachableStatus, driftStatus,
    failureStatus]

theorem exitStatus_mem (f : Failure) :
    f.exitStatus ∈ [failureStatus, bridgeStatus, driftStatus, unreachableStatus] := by
  cases f <;> simp [exitStatus, failureClass]

theorem exitStatus_ne_zero (f : Failure) : f.exitStatus ≠ 0 := by
  cases f <;> simp [exitStatus, failureClass, bridgeStatus, unreachableStatus, driftStatus,
    failureStatus]

end Failure

/-! ### What an explained run did not fail with -/

section

variable {α : Type} {ctx : Context} {seeker : String} {mode : Mode} {w : World Client}
  {r : EStateM.Result Failure (World Client) α} {f : Failure} {w' : World Client}

/-- The client is to blame for the end of a run in which `c` was invoked by `calls`: one
    of its listings ended badly, or at last it could not be started. -/
def ClientFailed (c : Client) (calls : List (List String))
    (r : EStateM.Result Failure (World Client) α) : Prop :=
  (∃ run, c.Listed (c.log ++ calls) run ∧ run.status.isSuccess = false) ∨
    ∃ arguments e w', (arguments = listArguments ∨
        ∃ request : Request, arguments = request.arguments) ∧
      (c.later calls).start arguments = .error e ∧ r = .error (c.notStarted e) w'

theorem Explained.clientFailed_iff (h : Explained ctx seeker mode w r)
    {calls : List (List String)} (hcalls : (stateOf r).service.log = w.service.log ++ calls) :
    (∃ detail w', r = .error (.unreachable detail) w') ↔ ClientFailed w.service calls r := by
  constructor
  · rintro ⟨detail, w', rfl⟩
    cases h with
    | clean hevents hlisted hend =>
      cases hend _ w' rfl with
      | repair _ hclass => cases hclass
      | general hclass _ => cases hclass
    | @notStarted _ arguments e _ hevents hlisted hwanted hstart =>
      have hsame : w'.service.start arguments = (w.service.later calls).start arguments := by
        unfold Client.start Client.later
        rw [hevents.program, hevents.launch]
        exact hcalls ▸ rfl
      refine Or.inr ⟨arguments, e, w', hwanted.imp_right And.right, ?_, ?_⟩
      · rw [← hsame, hstart]
      · unfold Client.notStarted
        rw [hevents.program]
    | notListed hevents hlisted hfailed =>
      refine Or.inl ⟨_, ?_, hfailed⟩
      rw [← hcalls]
      exact hevents.listed_iff.mp (by simp)
  · rintro (⟨run, hrun, hfailed⟩ | ⟨arguments, e, w', -, -, rfl⟩)
    · rw [← hcalls] at hrun
      cases h with
      | clean hevents hlisted hend =>
        rw [hlisted run (hevents.listed_iff.mpr hrun)] at hfailed
        cases hfailed
      | notStarted hevents hlisted hwanted hstart => exact ⟨_, _, rfl⟩
      | notListed hevents hlisted hfailed => exact ⟨_, _, rfl⟩
    · exact ⟨_, _, rfl⟩

theorem Explained.not_bridge (h : Explained ctx seeker mode w (.error f w' : EStateM.Result _ _ α)) :
    ∀ detail, f ≠ .bridgeNotConfigured detail := by
  rintro detail rfl
  cases h with
  | clean hevents hlisted hend =>
    cases hend _ _ rfl with
    | repair _ hclass => cases hclass
    | general _ hbridge => exact hbridge detail rfl

/-- A check of some container on the host `tree` ends in the drift. -/
def Found (ctx : Context) (seeker : String) (tree : Tree) (d : Drift) : Prop :=
  ∃ r ∈ standard seeker, ∃ c w w', w.tree = tree ∧
    ((r : Repair Client).run ctx .check c).run w = .error (.drift d) w'

theorem Explained.drift {d : Drift}
    (h : Explained ctx seeker mode w (.error (.drift d) w' : EStateM.Result _ _ α)) :
    mode = .check ∧ Found ctx seeker w'.tree d := by
  cases h with
  | clean hevents hlisted hend =>
    cases hend _ _ rfl with
    | drift hmode hr htree hrun => exact ⟨hmode, _, hr, _, _, _, htree, hrun⟩
    | repair _ hclass => cases hclass
    | general hclass _ => cases hclass

theorem Explained.repair (h : Explained ctx seeker mode w (.error f w' : EStateM.Result _ _ α))
    (hclass : f.failureClass = .repair) : mode = .fix := by
  cases h with
  | clean hevents hlisted hend =>
    cases hend _ _ rfl with
    | drift => cases hclass
    | repair hmode _ => exact hmode
    | general hgeneral _ =>
      rw [hgeneral] at hclass
      cases hclass
  | notStarted => cases hclass
  | notListed => cases hclass

end

/-! ### Commands -/

/-- Whether a command checks build targets. -/
def Command.checks : Command → Bool
  | .initialized _ | .check _ => true
  | .list | .exist _ | .rootfs _ | .status _ | .destroy _ | .autofix | .fix _ => false

/-- Whether a command can be taken for a run in some mode. -/
def Command.runsIn (c : Command) : Mode → Bool
  | .check => c.reads
  | .fix => !c.checks

theorem Command.reads_of_checks (c : Command) (h : c.checks = true) : c.reads = true := by
  cases c <;> first | rfl | cases h

theorem Command.exists_runsIn (c : Command) : ∃ mode, c.runsIn mode = true := by
  cases hreads : c.reads with
  | true => exact ⟨.check, hreads⟩
  | false =>
    refine ⟨.fix, ?_⟩
    cases c <;> first | rfl | cases hreads

namespace CommandLine

variable {i : Invocation} {ctx : Context} {mode : Mode}

theorem explains_perform (hruns : i.command.runsIn mode = true)
    (hbridge : i.command ≠ .initialized false) :
    Explains ctx seeker mode (perform i ctx : Action (World Client) (Option Report)) := by
  unfold perform
  cases hcommand : i.command with
  | list =>
    have hlist : Explains ctx seeker mode (World.onService Fleet.list : Action (World Client) _) := by
      unfold Fleet.list
      rw [World.onService_bind]
      exact .bind .containers fun _ => .pure _
    exact .bind hlist fun _ => .pure _
  | exist name =>
    have hfound : Explains ctx seeker mode
        (World.onService (Fleet.hasContainer name) : Action (World Client) _) := by
      unfold Fleet.hasContainer
      rw [World.onService_bind]
      exact .bind .containers fun _ => .pure _
    refine .bind hfound fun found => ?_
    cases found with
    | true => exact .pure _
    | false => exact .throw fun t => .general rfl nofun
  | rootfs name => exact .pure _
  | status name =>
    have hstatus : Explains ctx seeker mode
        (World.onService (Fleet.status name) : Action (World Client) _) := by
      unfold Fleet.status
      rw [World.onService_bind]
      exact .bind (.container name) fun _ => .pure _
    exact .bind hstatus fun _ => .pure _
  | destroy name =>
    rw [hcommand] at hruns
    cases mode with
    | check => cases hruns
    | fix => exact .bind (.destroy _ name) fun _ => .pure _
  | initialized ignoreBridge =>
    rw [hcommand] at hruns hbridge
    cases ignoreBridge with
    | false => exact absurd rfl hbridge
    | true =>
      cases mode with
      | check => exact .bind .ready fun _ => .pure _
      | fix => cases hruns
  | autofix =>
    rw [hcommand] at hruns
    cases mode with
    | check => cases hruns
    | fix => exact .bind .fixAll fun _ => .pure _
  | check name =>
    rw [hcommand] at hruns
    cases mode with
    | fix => cases hruns
    | check =>
      cases name with
      | none => exact .bind .checkAll fun _ => .pure _
      | some name => exact .bind (.checkOne name) fun _ => .pure _
  | fix name =>
    rw [hcommand] at hruns
    cases mode with
    | check => cases hruns
    | fix =>
      cases name with
      | none => exact .bind .fixAll fun _ => .pure _
      | some name => exact .bind (.fixOne name) fun _ => .pure _

/-- The bridge is asked for and has no subnet, as far as can be seen. -/
def BridgeMissing (i : Invocation) (t : Tree) : Prop :=
  i.command = .initialized false ∧
    ∀ text, t.readText i.bridgeFile = .ok text → Bridge.isConfigured text = false

theorem checkFile_cases (t : Tree) (file : String) :
    (∃ text, t.readText file = .ok text ∧ Bridge.isConfigured text = true) ∧
        Bridge.checkFile t file = .ok () ∨
      (∀ text, t.readText file = .ok text → Bridge.isConfigured text = false) ∧
        ∃ detail, Bridge.checkFile t file = .error (.bridgeNotConfigured detail) := by
  unfold Bridge.checkFile
  cases hread : t.readText file with
  | error e => exact Or.inr ⟨nofun, _, rfl⟩
  | ok text =>
    dsimp only
    unfold Bridge.checkText
    cases hconfigured : Bridge.isConfigured text with
    | true => exact Or.inl ⟨⟨text, rfl, hconfigured⟩, rfl⟩
    | false =>
      refine Or.inr ⟨fun text' heq => ?_, _, rfl⟩
      cases heq
      exact hconfigured

theorem run_bridgeReady (file : String) (w : World Client) :
    (Fleet.bridgeReady file).run w = match Bridge.checkFile w.tree file with
      | .ok _ => .ok () w
      | .error f => .error f w := by
  unfold Fleet.bridgeReady
  rw [EStateM.run_bind, EStateM.run_get]
  dsimp only
  cases Bridge.checkFile w.tree file <;> rfl

/-- Readiness with a look at the bridge: it is the first thing that is looked at. -/
theorem run_ready (file : String) (w : World Client) :
    (Fleet.ready (standard seeker) ctx (some file)).run w = match Bridge.checkFile w.tree file with
      | .ok _ => (Fleet.ready (standard seeker) ctx none).run w
      | .error f => .error f w := by
  change ((Fleet.bridgeReady file >>= fun _ => Fleet.ready (standard seeker) ctx none)).run w = _
  rw [EStateM.run_bind, run_bridgeReady]
  cases Bridge.checkFile w.tree file <;> rfl

/-- The bridge is looked at before the client is, and what the client does plays no
    part. -/
theorem run_of_bridgeMissing {w : World Client} (h : BridgeMissing i w.tree) :
    ∃ detail, (perform i ctx).run w = .error (.bridgeNotConfigured detail) w := by
  obtain ⟨hcommand, hmissing⟩ := h
  unfold perform
  rw [hcommand]
  change ∃ detail, (Fleet.ready (standard seeker) ctx (some i.bridgeFile) >>= _).run w = _
  rw [EStateM.run_bind, run_ready]
  obtain ⟨⟨text, hread, hconfigured⟩, -⟩ | ⟨-, detail, hcheck⟩ :=
    checkFile_cases w.tree i.bridgeFile
  · rw [hmissing text hread] at hconfigured
    cases hconfigured
  · rw [hcheck]
    exact ⟨detail, rfl⟩

/-- If the bridge is not missing, the run of a command is explained in each mode that it
    can be taken for. -/
theorem explained_perform {w : World Client} (hbridge : ¬BridgeMissing i w.tree)
    (hruns : i.command.runsIn mode = true) :
    Explained ctx seeker mode w ((perform i ctx).run w) := by
  by_cases hcommand : i.command = .initialized false
  · obtain rfl : mode = .check := by
      rw [hcommand] at hruns
      cases mode with
      | check => rfl
      | fix => cases hruns
    obtain ⟨-, hcheck⟩ | ⟨hmissing, -⟩ := checkFile_cases w.tree i.bridgeFile
    · have hready : Explains ctx seeker .check (do
          Fleet.ready (standard seeker) ctx none
          return none : Action (World Client) (Option Report)) :=
        .bind .ready fun _ => .pure _
      have h := hready w
      unfold perform
      rw [hcommand]
      change Explained ctx seeker .check w
        ((Fleet.ready (standard seeker) ctx (some i.bridgeFile) >>= fun _ => _).run w)
      rw [EStateM.run_bind] at h ⊢
      rw [run_ready, hcheck]
      exact h
    · exact absurd ⟨hcommand, hmissing⟩ hbridge
  · exact explains_perform hruns hcommand w

/-! ### The whole program -/

/-- How the run of a command ends over the client. -/
abbrev Ending := EStateM.Result Failure (World Client) (Option Report)

/-- A transcript shows how a run has ended. -/
structure Transcript.Shows (t : Transcript) (r : Ending) : Prop where
  ok : ∀ report w', r = .ok report w' → t.exitStatus = 0
  error : ∀ f w', r = .error f w' → t.exitStatus = f.exitStatus ∧ t.stdout = ""
  calls : t.calls = (stateOf r).service.log

theorem shows_execute (i : Invocation) (launch : Launcher) (tree : Tree) (privileged : Bool) :
    (execute i launch tree privileged).Shows ((perform i (context i privileged)).run
      { service := { program := i.client, launch := launch : Client }, tree := tree }) := by
  refine ⟨?_, ?_, (transcript_of_execute i launch tree privileged).1⟩
  · intro report w' hrun
    unfold EStateM.run at hrun
    unfold execute
    dsimp only
    rw [hrun]
  · intro f w' hrun
    unfold EStateM.run at hrun
    unfold execute
    dsimp only
    rw [hrun]
    exact ⟨rfl, rfl⟩

/-- What the exit status of a command tells about its run `r`, which began with the
    client `c` on the host `tree`. -/
structure StatusTells (i : Invocation) (ctx : Context) (c : Client) (tree : Tree)
    (t : Transcript) (r : Ending) : Prop where
  silent : t.exitStatus ≠ 0 → t.stdout = ""
  success : t.exitStatus = 0 ↔ ∃ report w', r = .ok report w'
  /-- The bridge decides alone, whatever the client would do. -/
  bridge : t.exitStatus = bridgeStatus ↔ BridgeMissing i tree
  drift : t.exitStatus = driftStatus ↔ ∃ d w', r = .error (.drift d) w'
  /-- A drift is found by checks only, on the host as it is. -/
  found : ∀ d w', r = .error (.drift d) w' → i.command.checks = true ∧ Found ctx seeker tree d
  client : t.exitStatus = unreachableStatus ↔ ClientFailed c t.calls r
  other : ∀ f w', r = .error f w' →
    t.exitStatus ∈ [failureStatus, bridgeStatus, driftStatus, unreachableStatus]
  /-- Commands that only read end in no failure of repairs. -/
  reads : i.command.reads = true → ∀ f w', r = .error f w' → f.failureClass ≠ .repair

section

variable {c : Client} {tree : Tree} {t : Transcript}

theorem statusTells_of_ok {report : Option Report} {w' : World Client}
    (hbridge : ¬BridgeMissing i tree) (hclient : ¬ClientFailed c t.calls (.ok report w' : Ending))
    (hshows : t.Shows (.ok report w')) : StatusTells i ctx c tree t (.ok report w') := by
  have hstatus := hshows.ok _ _ rfl
  constructor
  case silent => exact fun h => absurd hstatus h
  case success => exact iff_of_true hstatus ⟨_, _, rfl⟩
  case bridge => exact iff_of_false (by rw [hstatus]; nofun) hbridge
  case drift => exact iff_of_false (by rw [hstatus]; nofun) nofun
  case found => exact nofun
  case client => exact iff_of_false (by rw [hstatus]; nofun) hclient
  case other => exact nofun
  case reads => exact fun _ => nofun

theorem statusTells_of_error {f : Failure} {w' : World Client}
    (hbridge : (∃ detail, f = .bridgeNotConfigured detail) ↔ BridgeMissing i tree)
    (hfound : ∀ d, f = .drift d → i.command.checks = true ∧ Found ctx seeker tree d)
    (hclient : (∃ detail, f = .unreachable detail) ↔ ClientFailed c t.calls (.error f w' : Ending))
    (hreads : i.command.reads = true → f.failureClass ≠ .repair)
    (hshows : t.Shows (.error f w')) : StatusTells i ctx c tree t (.error f w') := by
  obtain ⟨hstatus, hsilent⟩ := hshows.error _ _ rfl
  constructor
  case silent => exact fun _ => hsilent
  case success => exact iff_of_false (by rw [hstatus]; exact f.exitStatus_ne_zero) nofun
  case bridge => rw [hstatus, Failure.exitStatus_eq_bridge_iff, hbridge]
  case drift =>
    rw [hstatus, Failure.exitStatus_eq_drift_iff]
    simp
  case found =>
    rintro d _ heq
    cases heq
    exact hfound d rfl
  case client => rw [hstatus, Failure.exitStatus_eq_unreachable_iff, hclient]
  case other =>
    intro _ _ _
    rw [hstatus]
    exact f.exitStatus_mem
  case reads =>
    rintro h _ _ heq
    cases heq
    exact hreads h

/-- A run that the bridge ends has not invoked the client. -/
theorem statusTells_of_bridgeMissing {detail : String} {w' : World Client}
    (hmissing : BridgeMissing i tree) (hcalls : t.calls = [])
    (hshows : t.Shows (.error (.bridgeNotConfigured detail) w')) :
    StatusTells i ctx c tree t (.error (.bridgeNotConfigured detail) w') := by
  refine statusTells_of_error (iff_of_true ⟨_, rfl⟩ hmissing) nofun (iff_of_false nofun ?_)
    (fun _ => nofun) hshows
  rintro (⟨run, ⟨earlier, later, hsplit, -⟩, -⟩ | ⟨_, _, _, -, -, heq⟩)
  · rw [hcalls] at hsplit
    simp at hsplit
  · cases heq

/-- Any other run tells what it is explained by, in each mode that it can be taken
    for. -/
theorem statusTells_of_explained {w : World Client} {r : Ending}
    (hmissing : ¬BridgeMissing i w.tree)
    (hexplained : ∀ mode, i.command.runsIn mode = true → Explained ctx seeker mode w r)
    (htree : i.command.reads = true → (stateOf r).tree = w.tree)
    (hcalls : (stateOf r).service.log = w.service.log ++ t.calls) (hshows : t.Shows r) :
    StatusTells i ctx w.service w.tree t r := by
  obtain ⟨mode, hruns⟩ := i.command.exists_runsIn
  have hclient := (hexplained mode hruns).clientFailed_iff hcalls
  cases r with
  | ok report w' =>
    refine statusTells_of_ok hmissing (fun hfailed => ?_) hshows
    obtain ⟨detail, _, heq⟩ := hclient.mpr hfailed
    cases heq
  | error f w' =>
    refine statusTells_of_error ?_ ?_ ?_ ?_ hshows
    · refine iff_of_false ?_ hmissing
      rintro ⟨detail, hf⟩
      exact (hexplained mode hruns).not_bridge detail hf
    · rintro d rfl
      have hchecks : i.command.checks = true := by
        cases hnot : i.command.checks with
        | true => rfl
        | false =>
          have hfix : i.command.runsIn .fix = true := by simp [Command.runsIn, hnot]
          cases (hexplained .fix hfix).drift.1
      have hreads : i.command.reads = true := i.command.reads_of_checks hchecks
      refine ⟨hchecks, ?_⟩
      rw [← htree hreads]
      exact (hexplained .check hreads).drift.2
    · rw [← hclient]
      simp
    · intro hreads hclass
      cases (hexplained .check hreads).repair hclass

end

/-- Whatever the command line, the host and the client are, the exit status tells how
    the run has ended. -/
theorem exit_status_tells (env : Environment) (args : List String) (launch : Launcher)
    (tree : Tree) (privileged : Bool) (i : Invocation) (hparse : parse env args = .ok i) :
    let client : Client := { program := i.client, launch := launch }
    let ctx := context i privileged
    StatusTells i ctx client tree (run env args launch tree privileged)
      ((perform i ctx).run { service := client, tree := tree }) := by
  intro client ctx
  let w : World Client := { service := client, tree := tree }
  have hshows : (execute i launch tree privileged).Shows ((perform i ctx).run w) :=
    shows_execute i launch tree privileged
  rw [run_of_parse hparse]
  by_cases hmissing : BridgeMissing i tree
  · obtain ⟨detail, hrun⟩ : ∃ detail, (perform i ctx).run w =
        .error (.bridgeNotConfigured detail) w := run_of_bridgeMissing hmissing
    rw [hrun] at hshows ⊢
    exact statusTells_of_bridgeMissing hmissing hshows.calls hshows
  · exact statusTells_of_explained (w := w) hmissing (fun _ => explained_perform hmissing)
      (fun hreads => (reads_perform ctx hreads w).tree) hshows.calls.symm hshows

/-- Without a bridge and without a client it is the bridge that is reported. -/
theorem exit_status_tells_missing_bridge :
    let transcript := run {} ["initialized"] Launcher.missing Tree.bare true
    parse {} ["initialized"] = .ok { command := .initialized false } ∧
      transcript.exitStatus = bridgeStatus ∧
      BridgeMissing { command := .initialized false } Tree.bare ∧
      transcript.stdout = "" := by
  intro transcript
  have hparse : parse {} ["initialized"] = .ok { command := .initialized false } := by
    decide +kernel
  have h := exit_status_tells {} ["initialized"] Launcher.missing Tree.bare true _ hparse
  have hstatus : transcript.exitStatus = bridgeStatus := by decide +kernel
  refine ⟨hparse, hstatus, h.bridge.mp hstatus, h.silent ?_⟩
  change transcript.exitStatus ≠ 0
  rw [hstatus]
  nofun

end CommandLine

end BuildTargets
