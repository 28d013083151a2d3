/-
  BuildTargets/Proofs/Repair/Tandem.lean
  ======================================
  **A client that mirrors a store stands for it.**

  The same run can be made over a store and over a client (`Tandem`).  Suppose that the
  client can be started, ends well whatever it is started for, and prints the
  containers of the store as they are at that moment (`Tandem.Mirrors`).  Then each
  query through the client finds what the store holds, and each request that the store
  carries out is an invocation of the client that succeeds: the two stay abreast
  (`Paired.run_listAll`, `Paired.run_perform`).
-/
import BuildTargets.Proofs.Client
import BuildTargets.Proofs.Listing
import BuildTargets.Proofs.Repair.Feasibility
import BuildTargets.Proofs.Repair.Runs
import BuildTargets.Proofs.Store.History
import BuildTargets.Proofs.Text.Utf8

namespace BuildTargets

/-! ### Stores -/

namespace Store

variable {s s' : Store} {request : Request}

/-- A store that answers, and does not make its operations fail.  All names in it can be
    arguments. -/
structure IsHealthy (s : Store) : Prop where
  reachable : s.unreachable = false
  faultless : s.failing = none
  keyed : s.IsKeyed
  named : ∀ n c, s.containers.get? n = some c → c.IsNamed

theorem IsHealthy.isArgument (hs : s.IsHealthy) {name : String} {c : Container}
    (hc : s.containers.get? name = some c) : IsArgument name := by
  rw [← hs.keyed name c hc]
  exact (hs.named name c hc).name

/-- The store once it has carried out some requests. -/
def carriedOut (s : Store) (requests : List Request) : Store :=
  requests.foldl (fun s request => (s.apply request).2) s

theorem carriedOut_concat (s : Store) (requests : List Request) (request : Request) :
    s.carriedOut (requests ++ [request]) = ((s.carriedOut requests).apply request).2 := by
  rw [carriedOut, List.foldl_append]
  rfl

theorem keeping_requests :
    Service.Keeping fun s s' : Store => s.requests <+: s'.requests where
  refl := fun s => List.prefix_rfl
  trans := fun _ _ _ h h' => h.trans h'
  containers := by
    intro s
    have hsame : stateOf (listAll.run s) = s := stateOf_listAll s
    exact ⟨[], by rw [service_containers, hsame, List.append_nil]⟩
  container := by
    intro name s
    have hsame : stateOf ((find name).run s) = s := stateOf_find s name
    exact ⟨[], by rw [service_container, hsame, List.append_nil]⟩
  perform := by
    intro request patience s
    rcases s.stateOf_perform request patience with hsame | hanswered
    · exact ⟨[], by rw [hsame, List.append_nil]⟩
    · exact ⟨[request], by rw [hanswered, requests_answer]; rfl⟩

theorem IsKeyed.find?_values (h : s.IsKeyed) (name : String) :
    s.containers.values.find? (·.name = name) = s.containers.get? name := by
  cases hget : s.containers.get? name with
  | none =>
    refine List.find?_eq_none.mpr fun c hc hname => ?_
    have hc' := h.mem_values.mp hc
    rw [of_decide_eq_true hname, hget] at hc'
    cases hc'
  | some c =>
    have hname : c.name = name := h name c hget
    have hfound : (s.containers.values.find? (·.name = name)).isSome = true := by
      refine List.find?_isSome.mpr ⟨c, h.mem_values.mpr ?_, by simp [hname]⟩
      rw [hname, hget]
    obtain ⟨c', hc'⟩ := Option.isSome_iff_exists.mp hfound
    have hname' : c'.name = name := by simpa using List.find?_some hc'
    have hget' := h.mem_values.mp (List.mem_of_find?_eq_some hc')
    rw [hname', hget] at hget'
    rw [hc', hget']

/-- A request that can be carried out is, if the store is healthy. -/
theorem IsHealthy.run_perform (hs : s.IsHealthy) {patience : Patience}
    (hcancelled : patience.cancelled = false) {c : Container} {result : Option Container}
    (hc : s.containers.get? request.container = some c)
    (hchange : request.change? c = some result) :
    (Service.perform request patience).run s =
      .ok () ((s.logged request).withResult request.container result) :=
  run_perform_of_change? hs.reachable hs.faultless hcancelled hchange hc

theorem containers_withResult (h : s.containers = s'.containers) (n : String)
    (result : Option Container) :
    (s.withResult n result).containers = (s'.withResult n result).containers := by
  cases result with
  | some c => simp only [withResult, h]
  | none => simp only [withResult, h]

theorem isNamed_of_change? {c c' : Container} (hc : c.IsNamed) (hspell : request.IsSpellable)
    (h : request.change? c = some (some c')) : c'.IsNamed := by
  cases request with
  | addDevice n name device =>
    simp only [Request.change?] at h
    split at h
    · cases h
    · cases h
      refine ⟨hc.name, fun k d hk => ?_⟩
      rw [Dict.get?_insert] at hk
      split at hk
      · next heq =>
        rw [heq]
        exact hspell name (by simp [Request.arguments])
      · exact hc.devices k d hk
  | removeDevice n name =>
    simp only [Request.change?] at h
    split at h
    · cases h
      refine ⟨hc.name, fun k d hk => ?_⟩
      rw [Dict.get?_erase] at hk
      split at hk
      · cases hk
      · exact hc.devices k d hk
    · cases h
  | stop n force =>
    cases h
    exact ⟨hc.name, hc.devices⟩
  | delete n => cases h

theorem IsHealthy.withResult (hs : s.IsHealthy) (hspell : request.IsSpellable) {c : Container}
    {result : Option Container} (hc : s.containers.get? request.container = some c)
    (hchange : request.change? c = some result) :
    ((s.logged request).withResult request.container result).IsHealthy := by
  have hget := get?_withResult (s.logged request) request.container result
  have hsame : (s.logged request).containers = s.containers := rfl
  rw [withResult_eq]
  refine ⟨hs.reachable, hs.faultless, fun n c' hc' => ?_, fun n c' hc' => ?_⟩
  · dsimp only at hc'
    rw [hget] at hc'
    split at hc'
    · next hn =>
      subst hc'
      rw [Request.name_of_change? hchange, hs.keyed _ c hc, hn]
    · exact hs.keyed n c' hc'
  · dsimp only at hc'
    rw [hget] at hc'
    split at hc'
    · subst hc'
      exact isNamed_of_change? (hs.named _ c hc) hspell hchange
    · exact hs.named n c' hc'

end Store

/-! ### Clients -/

namespace Client

variable {c : Client} {request : Request}

/-- The invocations in a log that ask for a change. -/
def mutations (log : List (List String)) : List (List String) := log.filter (· ≠ listArguments)

theorem log_perform_of_start {patience : Patience} {run : ClientRun}
    (hstart : c.start request.arguments = .ok run) :
    (stateOf ((Service.perform request patience).run c)).log = c.log ++ [request.arguments] := by
  rw [run_perform_eq, hstart]
  dsimp only
  cases waited patience request run <;> rfl

theorem log_listAll_of_start {run : ClientRun} (hstart : c.start listArguments = .ok run) :
    (stateOf (listAll.run c)).log = c.log ++ [listArguments] := by
  rw [run_listAll, hstart]
  dsimp only
  cases c.listing run <;> rfl

theorem log_find_of_start {run : ClientRun} (hstart : c.start listArguments = .ok run)
    (name : String) : (stateOf ((find name).run c)).log = c.log ++ [listArguments] := by
  rw [run_find, hstart]
  dsimp only
  cases c.listing run with
  | error e => rfl
  | ok cs =>
    dsimp only
    cases cs.find? (·.name = name) <;> rfl

theorem keeping_log : Service.Keeping fun c c' : Client => c.log <+: c'.log where
  refl := fun c => List.prefix_rfl
  trans := fun _ _ _ h h' => h.trans h'
  containers := by
    intro c
    rw [service_containers]
    cases hstart : c.start listArguments with
    | ok run =>
      rw [log_listAll_of_start hstart]
      exact List.prefix_append _ _
    | error e =>
      rw [run_listAll, hstart]
      exact List.prefix_rfl
  container := by
    intro name c
    rw [service_container]
    cases hstart : c.start listArguments with
    | ok run =>
      rw [log_find_of_start hstart]
      exact List.prefix_append _ _
    | error e =>
      rw [run_find, hstart]
      exact List.prefix_rfl
  perform := by
    intro request patience c
    cases hstart : c.start request.arguments with
    | ok run =>
      rw [log_perform_of_start hstart]
      exact List.prefix_append _ _
    | error e =>
      rw [Service.perform, EStateM.run_bind, service_submit, run_accept, hstart]
      exact List.prefix_rfl

end Client

/-! ### The same run twice -/

/-- A run over a store, and the same run over a client. -/
structure Tandem where
  store : Store
  client : Client
  patience : Patience
  /-- The requests that the store accepts. -/
  calls : List Request
  /-- The invocations of the client. -/
  asked : List (List String)

namespace Tandem

open Client (mutations)

/-- The client may be asked this: to list, or to do what the store accepts. -/
structure MayAsk (k : Tandem) (arguments : List String) : Prop where
  spellable : ∀ a ∈ arguments, IsArgument a
  purpose : arguments = listArguments ∨ ∃ request ∈ k.calls, arguments = request.arguments

/-- The client does as the store does.  It can be started whenever it is asked, and each
    of its invocations ends well and in time.  A list prints the containers of the
    moment: when so many changes have been asked of the client, the store has carried
    out so many requests. -/
structure Mirrors (k : Tandem) : Prop where
  starts : ∀ earlier, earlier <+: k.asked → ∀ arguments, k.MayAsk arguments →
    ∃ run, (k.client.later earlier).start arguments = .ok run
  succeeds : ∀ earlier arguments run, earlier ++ [arguments] <+: k.asked →
    (k.client.later earlier).start arguments = .ok run → run.status = .code 0
  lists : ∀ earlier run, earlier ++ [listArguments] <+: k.asked →
    (k.client.later earlier).start listArguments = .ok run →
    ∃ text, run.stdout = Text.encode text ∧ Listing.Renders (·.isSome)
      (k.store.carriedOut (k.calls.take (mutations earlier).length)).containers.values text
  inTime : ∀ earlier arguments run, earlier ++ [arguments] <+: k.asked →
    (k.client.later earlier).start arguments = .ok run → run.outlasts = true →
    arguments ≠ listArguments → k.patience.limit = none

/-- The store and the client have come equally far. -/
structure Paired (k : Tandem) (s : Store) (c : Client) : Prop where
  healthy : s.IsHealthy
  program : c.program = k.client.program
  launch : c.launch = k.client.launch
  progress : ∃ made earlier, s.requests = k.store.requests ++ made ∧
    c.log = k.client.log ++ earlier ∧ mutations earlier = made.map Request.arguments ∧
    s.containers = (k.store.carriedOut made).containers

/-- The store and the client have not come further than the two runs do. -/
structure Within (k : Tandem) (s : Store) (c : Client) : Prop where
  calls : s.requests <+: k.store.requests ++ k.calls
  asked : c.log <+: k.client.log ++ k.asked

variable {k : Tandem} {s s' : Store} {c c' : Client} {request : Request}

theorem Within.before (h : k.Within s' c') (hs : s.requests <+: s'.requests)
    (hc : c.log <+: c'.log) : k.Within s c := ⟨hs.trans h.calls, hc.trans h.asked⟩

/-- What comes of the next invocation. -/
theorem Paired.next (hk : k.Mirrors) (h : k.Paired s c) (hw : k.Within s c)
    {arguments : List String} (harguments : k.MayAsk arguments) :
    ∃ run, c.start arguments = .ok run ∧
      (c.log ++ [arguments] <+: k.client.log ++ k.asked → run.status = .code 0 ∧
        (arguments = listArguments → ∃ text, run.stdout = Text.encode text ∧
          Listing.Renders (·.isSome) s.containers.values text) ∧
        (arguments ≠ listArguments → run.outlasts = true → k.patience.limit = none)) := by
  obtain ⟨made, earlier, hrequests, hlog, htranslated, hcontainers⟩ := h.progress
  have hsame : c.start arguments = (k.client.later earlier).start arguments := by
    rw [Client.start, h.program, h.launch, hlog]
    rfl
  have hmade : made <+: k.calls := by
    have hcalls := hw.calls
    rw [hrequests] at hcalls
    exact (List.prefix_append_right_inj _).mp hcalls
  have hearlier : earlier <+: k.asked := by
    have hasked := hw.asked
    rw [hlog] at hasked
    exact (List.prefix_append_right_inj _).mp hasked
  obtain ⟨run, hrun⟩ := hk.starts earlier hearlier arguments harguments
  refine ⟨run, hsame.trans hrun, fun hnext => ?_⟩
  rw [hlog, List.append_assoc, List.prefix_append_right_inj] at hnext
  refine ⟨hk.succeeds _ _ _ hnext hrun, ?_, fun hne hlasts => ?_⟩
  · rintro rfl
    obtain ⟨text, hstdout, hrenders⟩ := hk.lists _ _ hnext hrun
    -- the moment is the one at which the store stands
    rw [htranslated, List.length_map, ← List.prefix_iff_eq_take.mp hmade, ← hcontainers] at hrenders
    exact ⟨text, hstdout, hrenders⟩
  · exact hk.inTime _ _ _ hnext hrun hlasts hne

/-! ### Queries -/

theorem mayAsk_listArguments : k.MayAsk listArguments := ⟨by decide, .inl rfl⟩

theorem Paired.invoked (h : k.Paired s c) : k.Paired s (c.invoked listArguments) where
  healthy := h.healthy
  program := h.program
  launch := h.launch
  progress := by
    obtain ⟨made, earlier, hrequests, hlog, htranslated, hcontainers⟩ := h.progress
    refine ⟨made, earlier ++ [listArguments], hrequests, ?_, ?_, hcontainers⟩
    · rw [Client.invoked, hlog, List.append_assoc]
    · rw [← htranslated, mutations, List.filter_append]
      simp [mutations]

/-- What a list says is what the store holds. -/
theorem Paired.listing (hk : k.Mirrors) (h : k.Paired s c) (hw : k.Within s c)
    (hnext : ∀ run, c.start listArguments = .ok run →
      c.log ++ [listArguments] <+: k.client.log ++ k.asked) :
    ∃ run, c.start listArguments = .ok run ∧ c.listing run = .ok s.containers.values := by
  obtain ⟨run, hrun, hends⟩ := h.next hk hw mayAsk_listArguments
  obtain ⟨hstatus, hprints, -⟩ := hends (hnext run hrun)
  obtain ⟨text, hstdout, j, hlist, htext⟩ := hprints rfl
  refine ⟨run, hrun, ?_⟩
  rw [Client.listing, hstatus, hstdout, Text.decodeLossy_encode,
    Listing.read?_of_isListed hlist htext]
  rfl

theorem Paired.run_listAll (hk : k.Mirrors) (h : k.Paired s c)
    (hw : k.Within s (stateOf (Client.listAll.run c))) :
    Client.listAll.run c = .ok s.containers.values (c.invoked listArguments) := by
  have hbefore : k.Within s c := hw.before List.prefix_rfl (Client.keeping_log.containers c)
  obtain ⟨run, hrun, hlisting⟩ := h.listing hk hbefore fun run hrun => by
    rw [← Client.log_listAll_of_start hrun]
    exact hw.asked
  rw [Client.run_listAll, hrun]
  dsimp only
  rw [hlisting]

theorem Paired.run_find (hk : k.Mirrors) (h : k.Paired s c) {name : String}
    (hw : k.Within s (stateOf ((Client.find name).run c))) :
    (Client.find name).run c = match s.containers.get? name with
      | some found => .ok found (c.invoked listArguments)
      | none => .error (.noContainer name) (c.invoked listArguments) := by
  have hbefore : k.Within s c := hw.before List.prefix_rfl (Client.keeping_log.container name c)
  obtain ⟨run, hrun, hlisting⟩ := h.listing hk hbefore fun run hrun => by
    rw [← Client.log_find_of_start hrun name]
    exact hw.asked
  have hfound := h.healthy.keyed.find?_values name
  rw [Client.run_find, hrun]
  dsimp only
  rw [hlisting]
  cases hget : s.containers.get? name with
  | some found => simp only [hfound, hget]
  | none => simp only [hfound, hget]

/-! ### Requests -/

section

variable (hk : k.Mirrors) (hcancelled : k.patience.cancelled = false) (h : k.Paired s c)
  (hspell : request.IsSpellable) {b : Container} {result : Option Container}
  (hb : s.containers.get? request.container = some b) (hchange : request.change? b = some result)
include hcancelled h hspell hb hchange

/-- What the store has accepted, the client may be asked for. -/
theorem Paired.mayAsk (hw : k.Within (stateOf ((Service.perform request k.patience).run s)) c') :
    k.MayAsk request.arguments := by
  obtain ⟨made, earlier, hrequests, -, -, -⟩ := h.progress
  have hcalls := hw.calls
  rw [h.healthy.run_perform hcancelled hb hchange, stateOf_ok, Store.withResult_eq] at hcalls
  change s.requests ++ [request] <+: k.store.requests ++ k.calls at hcalls
  rw [hrequests, List.append_assoc, List.prefix_append_right_inj] at hcalls
  exact ⟨hspell, .inr ⟨request, hcalls.subset (by simp), rfl⟩⟩

include hk

/-- A request that can be written on a command line is one invocation, and succeeds. -/
theorem Paired.run_perform
    (hw : k.Within (stateOf ((Service.perform request k.patience).run s))
      (stateOf ((Service.perform request k.patience).run c))) :
    (Service.perform request k.patience).run c = .ok () (c.settled request) := by
  have hbefore : k.Within s c := hw.before (Store.keeping_requests.perform _ _ s)
    (Client.keeping_log.perform _ _ c)
  obtain ⟨run, hrun, hends⟩ := h.next hk hbefore (h.mayAsk hcancelled hspell hb hchange hw)
  obtain ⟨hstatus, -, hinTime⟩ := hends (by
    rw [← Client.log_perform_of_start hrun]
    exact hw.asked)
  have hverdict : Client.verdict request run = .ok () := by
    rw [Client.verdict, (Client.outcome_eq_success_iff run).mpr (by rw [hstatus]; rfl)]
  rw [Client.run_perform_eq, hrun]
  dsimp only
  rw [Client.waited_in_time request hcancelled (hinTime request.arguments_ne_list), hverdict]

end

theorem Paired.settled (h : k.Paired s c) (hspell : request.IsSpellable) {b : Container}
    {result : Option Container} (hb : s.containers.get? request.container = some b)
    (hchange : request.change? b = some result) :
    k.Paired ((s.logged request).withResult request.container result) (c.settled request) where
  healthy := h.healthy.withResult hspell hb hchange
  program := h.program
  launch := h.launch
  progress := by
    obtain ⟨made, earlier, hrequests, hlog, htranslated, hcontainers⟩ := h.progress
    refine ⟨made ++ [request], earlier ++ [request.arguments], ?_, ?_, ?_, ?_⟩
    · rw [Store.withResult_eq, ← List.append_assoc, ← hrequests]
      rfl
    · rw [Client.settled, hlog, List.append_assoc]
    · rw [List.map_append, ← htranslated, mutations, List.filter_append]
      simp [mutations, request.arguments_ne_list]
    · have hb' := hb
      rw [hcontainers] at hb'
      rw [Store.carriedOut_concat, Store.apply_of_change? hb' hchange]
      exact Store.containers_withResult (s := s.logged request) hcontainers _ _

end Tandem

end BuildTargets
