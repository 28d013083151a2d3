/-
  BuildTargets/Proofs/Repair/Resumption.lean
  ==========================================
  **A fix that was interrupted can be run again.**

  A move that is made renews one container and lets the tree grow at most
  (`Renews`).  So the scripts of the repairs say what is left to do, for one
  container (`Predicts.container`) and, if nothing but requests is made, for all
  targets (`Predicts.targets`).  The graphics driver is looked for once; from then
  on it is remembered.

  One node of the graphics driver may be listed twice, under one text of two names
  that are not UTF-8.  To add it a second time fails, if it was not there before, and
  this ends the fix.  So the fix that nobody interrupts is interrupted nevertheless,
  and there is nothing that the fix run again could be compared with.
-/
import BuildTargets.Proofs.Repair.Interruption
import BuildTargets.Proofs.Repair.Progress
import BuildTargets.Proofs.Tree.Proper

namespace BuildTargets.Repair

open BuildTargets Script

variable {ctx : Context}

/-! ### What a move makes -/

/-- From `w` to `w'` the container `c` has become `c'`, and nothing else but what is
    noted has changed, apart from what is new in the tree. -/
structure Renews (w : World Store) (c c' : Container) (w' : World Store) : Prop where
  name : c'.name = c.name
  config : c'.config = c.config
  containers : w'.service.containers = w.service.containers.insert c.name c'
  reachable : w'.service.unreachable = w.service.unreachable
  drivers : w'.drivers = w.drivers
  tree : w.tree.Grows accessibleMode w'.tree

namespace Renews

variable {w w' : World Store} {c c' : Container}

theorem stored (h : Renews w c c' w') : w'.stored? c.name = some c' := by
  rw [World.stored?, h.containers, Dict.get?_insert_self]

theorem isTarget (h : Renews w c c' w') : c'.isTarget = c.isTarget := by
  unfold Container.isTarget Container.target?
  rw [h.config]
  split <;> rfl

theorem keyed (h : Renews w c c' w') (hkeyed : w.service.IsKeyed) : w'.service.IsKeyed := by
  have hinsert : w'.service.containers = (w.service.insert c').containers := by
    rw [h.containers, Store.insert, h.name]
  intro name c₁ hc₁
  rw [hinsert] at hc₁
  exact hkeyed.insert c' name c₁ hc₁

/-- The targets are what they were, but for the one that is renewed. -/
theorem targetsOf (h : Renews w c c' w') (hkeyed : w.service.IsKeyed)
    (hc : w.stored? c.name = some c) :
    Repair.targetsOf w'.service = (Repair.targetsOf w.service).map fun b =>
      if b.name = c.name then c' else b := by
  have hvalues : w'.service.containers.values = w.service.containers.values.map fun b =>
      if b.name = c.name then c' else b := by
    unfold Dict.values
    rw [h.containers, Dict.toList_insert hc, List.map_map, List.map_map]
    refine List.map_congr_left fun e he => ?_
    have hname : e.2.name = e.1 := hkeyed e.1 e.2 (Dict.get?_eq_some_iff.mpr he)
    dsimp only [Function.comp]
    rw [hname]
    split <;> rfl
  unfold Repair.targetsOf
  rw [hvalues, List.filter_map]
  refine congrArg _ (List.filter_congr fun b hb => ?_)
  obtain ⟨e, he, rfl⟩ := List.mem_map.mp hb
  have hname : e.2.name = e.1 := hkeyed e.1 e.2 (Dict.get?_eq_some_iff.mpr he)
  dsimp only [Function.comp]
  split
  · next heq =>
    have hsame : some e.2 = some c := by
      rw [← hc, World.stored?, ← heq, hname, Dict.get?_eq_some_iff.mpr he]
    rw [h.isTarget, Option.some.inj hsame]
  · rfl

end Renews

theorem run_createConfig {w w' : World Store} {c : Container}
    (habsent : ctx.host.isPresent w.tree (loaderConfigPath ctx.host c.name) = .ok false)
    (hrun : ((createConfig ctx.host c.name).make ctx).run w = .ok () w') :
    ∃ q, w.tree.walk false (ctx.host.path (loaderConfigPath ctx.host c.name)) =
        .ok (.gap q false) ∧
      w'.tree = withConfig ctx.host w.tree c.name ∧ w'.service = w.service ∧
      w'.drivers = w.drivers := by
  rw [make_createConfig] at hrun
  rcases run_writeLoaderConfig habsent with ⟨e, detail, -, hfailed⟩ | ⟨q, hgap, hcreated⟩
  · rw [hfailed] at hrun
    cases hrun
  · rw [hcreated] at hrun
    cases hrun
    refine ⟨q, hgap, ?_, rfl, rfl⟩
    unfold withConfig
    rw [hgap]

theorem grows_withConfig (host : HostView) (t : Tree) (name : String) :
    t.Grows accessibleMode (withConfig host t name) := by
  unfold withConfig
  split
  · next q hgap => exact Tree.grows_put_file (Tree.walk_eq_gap_iff.mp hgap).2.want_missing
  · exact .refl ..

theorem withConfig_withConfig (host : HostView) (t : Tree) (name : String) :
    withConfig host (withConfig host t name) name = withConfig host t name := by
  cases hwalk : t.walk false (host.path (loaderConfigPath host name)) with
  | error e =>
    have hsame : withConfig host t name = t := by
      unfold withConfig
      rw [hwalk]
    rw [hsame, hsame]
  | ok landing =>
    by_cases hgap : ∃ q, landing = .gap q false
    · obtain ⟨q, rfl⟩ := hgap
      exact withConfig_of_present (isPresent_withConfig hwalk)
    · have hsame : withConfig host t name = t := by
        unfold withConfig
        rw [hwalk]
        split
        · next q heq => exact absurd ⟨q, Except.ok.inj heq⟩ hgap
        · rfl
      rw [hsame, hsame]

/-- Whether a node is listed twice does not change on the way. -/
theorem nodesOnce_of_next {F : Tree → Container → Script} {w w' : World Store} {c : Container}
    {m : Move} (hnext : Next ctx.host F w.tree c m) (hrun : (m.make ctx).run w = .ok () w')
    (h : NodesOnce ctx.host w.tree c.name) : NodesOnce ctx.host w'.tree c.name := by
  have hasked {request : Request} (hrun : (World.perform ctx request).run w = .ok () w') :
      w'.tree = w.tree := by
    have hkept : (stateOf ((World.perform ctx request).run w)).tree = w.tree :=
      keeps_tree_perform request w
    rw [hrun] at hkept
    exact hkept
  cases hnext with
  | add => exact hasked hrun ▸ h
  | remove => exact hasked hrun ▸ h
  | create habsent =>
    obtain ⟨q, -, htree, -⟩ := run_createConfig habsent hrun
    rw [NodesOnce, htree, withConfig_withConfig]
    exact h

/-- A move that is the first of a script renews its container, and the script of what it
    makes is the rest. -/
theorem renews_of_next {F : Tree → Container → Script} {w w' : World Store} {c : Container}
    {m : Move} (hc : w.stored? c.name = some c) (hnext : Next ctx.host F w.tree c m)
    (hrun : (m.make ctx).run w = .ok () w') :
    ∃ c', Renews w c c' w' ∧ (F w.tree c).Sheds m (F w'.tree c') := by
  have hdevices (request : Request) (hrequest : request.container = c.name)
      (devices : Dict String Device) :
      Renews w c { c with devices := devices } (w.withDevices request c devices) := by
    refine ⟨rfl, rfl, ?_, rfl, rfl, .refl ..⟩
    change w.service.containers.insert request.container _ = _
    rw [hrequest]
  cases hnext with
  | add h =>
    obtain ⟨c₀, hc₀, -, rfl⟩ := World.of_run_perform_add_ok hrun
    cases hc₀.symm.trans hc
    exact ⟨_, hdevices _ rfl _, h⟩
  | remove h =>
    obtain ⟨c₀, hc₀, rfl⟩ := World.of_run_perform_remove_ok hrun
    cases hc₀.symm.trans hc
    exact ⟨_, hdevices _ rfl _, h⟩
  | create habsent h =>
    obtain ⟨q, hgap, htree, hservice, hdrivers⟩ := run_createConfig habsent hrun
    refine ⟨c, ⟨rfl, rfl, ?_, by rw [hservice], hdrivers, ?_⟩, ?_⟩
    · rw [hservice, Dict.insert_of_get? hc]
    · rw [htree]
      exact grows_withConfig ..
    · rw [htree]
      exact h q hgap

/-! ### Repairs that are predicted -/

/-- In the worlds of the class `K` a repair of a container follows the scripts `F`, and each
    script is shortened by the moves that are made. -/
structure Predicts (ctx : Context) (r : ∀ (β : Type) [Service β], Repair β)
    (F : Tree → Container → Script) (K : World Store → Container → Prop) : Prop where
  run_store : ∀ w c, K w c →
    ((r Store).run ctx .fix c).run w = ((F w.tree c).follow ctx .fix).run w
  run_disturbed : ∀ (d : World Disturbed) c, K d.plain c →
    ((r Disturbed).run ctx .fix c).run d = ((F d.tree c).follow ctx .fix).run d
  asked : ∀ w c request, K w c → K (w.asked request) c
  next : ∀ w c m ms w', K w c → (F w.tree c).moves = m :: ms → (m.make ctx).run w = .ok () w' →
    Next ctx.host F w.tree c m
  step : ∀ w c m w' c', K w c → Next ctx.host F w.tree c m → (m.make ctx).run w = .ok () w' →
    Renews w c c' w' → (F w.tree c).Sheds m (F w'.tree c') → K w' c'

variable {r : ∀ (β : Type) [Service β], Repair β} {F : Tree → Container → Script}
  {K : World Store → Container → Prop} {calm : Nat} {how : Disturbance}

/-- A repair of which every script is shortened by whatever move is made. -/
theorem Predicts.of_abides
    (hstore : ∀ w c, ((r Store).run ctx .fix c).run w = ((F w.tree c).follow ctx .fix).run w)
    (hdisturbed : ∀ (d : World Disturbed) c,
      ((r Disturbed).run ctx .fix c).run d = ((F d.tree c).follow ctx .fix).run d)
    (h : Abides ctx.host F) : Predicts ctx r F fun _ _ => True where
  run_store := fun w c _ => hstore w c
  run_disturbed := fun d c _ => hdisturbed d c
  asked := fun _ _ _ _ => trivial
  next := fun w c m ms _ _ hmoves _ => h w.tree c m ms hmoves
  step := fun _ _ _ _ _ _ _ _ _ _ => trivial

/-- The service answers, with each container under its own name. -/
structure Answers (w : World Store) : Prop where
  keyed : w.service.IsKeyed
  reachable : w.service.unreachable = false

theorem Answers.renews {w w' : World Store} {c c' : Container} (h : Answers w)
    (hrenews : Renews w c c' w') : Answers w' :=
  ⟨hrenews.keyed h.keyed, hrenews.reachable.trans h.reachable⟩

/-! ### One container -/

theorem run_onContainer_disturbed (r : Repair Disturbed) (mode : Mode) (name : String)
    (d : World Disturbed) :
    (r.onContainer ctx mode name).run d =
      if d.service.store.unreachable then .error (.unreachable "backend is unreachable") d
      else match d.plain.stored? name with
        | some c => (r.run ctx mode c).run d
        | none => .error (.noContainer name) d := by
  have hcontainer : (Service.container name : Action Disturbed Container) =
      Disturbed.onStore (Store.find name) := rfl
  rw [onContainer, EStateM.run_bind, World.run_onService, hcontainer, Disturbed.run_onStore,
    Store.run_find, World.stored?]
  unfold World.plain
  cases d.service.store.unreachable with
  | true => rfl
  | false => cases d.service.store.containers.get? name <;> rfl

theorem run_onContainer_stored_disturbed {d : World Disturbed} {mode : Mode} {name : String}
    {c : Container} (r : Repair Disturbed) (hu : d.plain.service.unreachable = false)
    (hc : d.plain.stored? name = some c) :
    (r.onContainer ctx mode name).run d = (r.run ctx mode c).run d := by
  have hreachable : d.service.store.unreachable = false := hu
  rw [run_onContainer_disturbed, hreachable, if_neg Bool.false_ne_true, hc]

def containerPlan (F : Tree → Container → Script) (name : String) (w : World Store) : Script :=
  match w.stored? name with
  | some c => F w.tree c
  | none => clear

theorem Predicts.container (hr : Predicts ctx r F K) (name : String) :
    Foreseen ctx (fun β _ => (r β).onContainer ctx .fix name) (containerPlan F name) fun w =>
      Answers w ∧ ∃ c, w.stored? name = some c ∧ K w c where
  run_store := by
    rintro w ⟨hw, c, hc, hK⟩
    unfold containerPlan
    rw [run_onContainer_stored _ hw.reachable hc, hc]
    exact hr.run_store w c hK
  run_disturbed := by
    rintro d ⟨hw, c, hc, hK⟩
    unfold containerPlan
    rw [run_onContainer_stored_disturbed _ hw.reachable hc, hc]
    exact hr.run_disturbed d c hK
  asked := by
    rintro w request ⟨hw, c, hc, hK⟩
    exact ⟨⟨⟨hw.keyed, hw.reachable⟩, c, hc, hr.asked w c request hK⟩, rfl⟩
  step := by
    rintro w m ms w' ⟨hw, c, hc, hK⟩ hmoves hrun
    have hplan : containerPlan F name w = F w.tree c := by
      unfold containerPlan
      rw [hc]
    obtain rfl : c.name = name := hw.keyed name c hc
    rw [hplan] at hmoves ⊢
    have hnext := hr.next w c m ms w' hK hmoves hrun
    obtain ⟨c', hrenews, hsheds⟩ := renews_of_next hc hnext hrun
    have hplan' : containerPlan F c.name w' = F w'.tree c' := by
      unfold containerPlan
      rw [hrenews.stored]
    rw [hplan']
    exact ⟨⟨hw.renews hrenews, c', hrenews.stored, hr.step w c m w' c' hK hnext hrun hrenews hsheds⟩,
      hsheds⟩

/-- A fix that does not wait is not interrupted. -/
theorem whenBroken_of_no_waits {fix : Fix} {w : World Store}
    {P : EStateM.Result Failure (World Disturbed) Unit → Prop}
    (h : ∀ d : World Disturbed, d.plain = w →
      (stateOf ((fix Disturbed).run d)).service.waits = d.service.waits) :
    WhenBroken fix calm how w P := by
  intro broken hbroken hwaits
  rw [← hbroken, h (w.disturbed calm how) rfl] at hwaits
  exact absurd hwaits (Nat.not_lt_zero calm)

/-- Without the container there is nothing to interrupt. -/
theorem whenBroken_onContainer {w : World Store} {name : String}
    {P : EStateM.Result Failure (World Disturbed) Unit → Prop}
    (h : w.service.unreachable = false → ∀ c, w.stored? name = some c →
      WhenBroken (fun β _ => (r β).onContainer ctx .fix name) calm how w P) :
    WhenBroken (fun β _ => (r β).onContainer ctx .fix name) calm how w P := by
  cases hu : w.service.unreachable with
  | true =>
    refine whenBroken_of_no_waits fun d hd => ?_
    subst hd
    have hunreachable : d.service.store.unreachable = true := hu
    rw [run_onContainer_disturbed, hunreachable]
    rfl
  | false =>
    cases hc : w.stored? name with
    | some c => exact h hu c hc
    | none =>
      refine whenBroken_of_no_waits fun d hd => ?_
      subst hd
      have hreachable : d.service.store.unreachable = false := hu
      rw [run_onContainer_disturbed, hreachable, hc]
      rfl

theorem Predicts.resumes_container (hr : Predicts ctx r F K) {w : World Store}
    (hkeyed : w.service.IsKeyed) (name : String) (hK : ∀ c, w.stored? name = some c → K w c) :
    Resumes (fun β _ => (r β).onContainer ctx .fix name) calm how w :=
  whenBroken_onContainer fun hu c hc =>
    (hr.container name).resumes ⟨⟨hkeyed, hu⟩, c, hc, hK c hc⟩ calm how

/-! ### All targets -/

theorem run_onTargets_disturbed (r : Repair Disturbed) (mode : Mode) (d : World Disturbed) :
    (r.onTargets ctx mode).run d =
      if d.service.store.unreachable then .error (.unreachable "backend is unreachable") d
      else ((targetsOf d.service.store).forM (r.run ctx mode)).run d := by
  have hcontainers : (Service.containers : Action Disturbed (List Container)) =
      Disturbed.onStore Store.listAll := rfl
  rw [onTargets, EStateM.run_bind, World.run_onService, Service.targets, EStateM.run_bind,
    hcontainers, Disturbed.run_onStore, Store.run_listAll]
  cases d.service.store.unreachable <;> rfl

/-- The first move of a loop is that of one of its rounds.  If the script of this round
    is shortened, and no other script is changed, so is the whole. -/
theorem sheds_all {α : Type} {f : α → Script} {l : List α} (hnodup : l.Nodup) {m : Move}
    {ms : List Move} (h : (all f l).moves = m :: ms) :
    ∃ a ∈ l, (∃ ms, (f a).moves = m :: ms) ∧ ∀ g : α → α, (f a).Sheds m (f (g a)) →
      (∀ b ∈ l, b ≠ a → g b = b) → (all f l).Sheds m (all f (l.map g)) := by
  induction l with
  | nil => cases h
  | cons a rest ih =>
    obtain ⟨hnew, hrest⟩ := List.nodup_cons.mp hnodup
    rw [all, moves_append] at h
    cases hmoves : (f a).moves with
    | cons m' ms' =>
      -- the round of `a`, which does not come again
      rw [hmoves] at h
      obtain ⟨rfl, -⟩ := List.cons.inj h
      refine ⟨a, List.mem_cons_self, ⟨ms', hmoves⟩, fun g hsheds hothers => ?_⟩
      have hfixed (b : α) (hb : b ∈ rest) : g b = b :=
        hothers b (List.mem_cons_of_mem _ hb) fun heq => hnew (heq ▸ hb)
      have hsame : rest.map g = rest := (List.map_congr_left hfixed).trans (List.map_id rest)
      rw [List.map_cons, hsame, all, all]
      exact hsheds.append _
    | nil =>
      rw [hmoves, List.nil_append] at h
      cases hending : (f a).ending with
      | error e =>
        rw [hending] at h
        cases h
      | ok u =>
        rw [hending] at h
        obtain ⟨b, hb, hfirst, hrounds⟩ := ih hrest h
        refine ⟨b, List.mem_cons_of_mem _ hb, hfirst, fun g hsheds hothers => ?_⟩
        have hne : a ≠ b := fun heq => hnew (heq ▸ hb)
        have hshort := hrounds g hsheds fun b' hb' => hothers b' (List.mem_cons_of_mem _ hb')
        rw [List.map_cons, hothers a List.mem_cons_self hne, all, all]
        constructor
        · rw [moves_append, moves_append, hmoves, hending]
          exact hshort.moves
        · rw [ending_append, ending_append, hending]
          exact hshort.ending

theorem Predicts.targets (hr : Predicts ctx r F fun _ _ => True)
    (hasks : ∀ t c, (F t c).OnlyAsks) :
    Foreseen ctx (fun β _ => (r β).onTargets ctx .fix)
      (fun w => all (F w.tree) (targetsOf w.service)) Answers where
  run_store := by
    intro w hw
    rw [run_onTargets, hw.reachable, if_neg Bool.false_ne_true]
    -- requests leave the tree alone, so each target is met as it was foreseen
    refine run_all (fun c w' htree => ?_) (hasks w.tree)
    rw [← htree]
    exact hr.run_store w' c trivial
  run_disturbed := by
    intro d hd
    have hreachable : d.service.store.unreachable = false := hd.reachable
    have hplain : d.plain.tree = d.tree := rfl
    rw [run_onTargets_disturbed, hreachable, if_neg Bool.false_ne_true]
    refine run_all (fun c d' htree => ?_) (hasks d.tree)
    rw [hplain, ← htree]
    exact hr.run_disturbed d' c trivial
  asked := fun w request hw => ⟨⟨hw.keyed, hw.reachable⟩, rfl⟩
  step := by
    intro w m ms w' hw hmoves hrun
    obtain ⟨c, hc, ⟨ms', hfirst⟩, hrounds⟩ := sheds_all (nodup_targetsOf hw.keyed) hmoves
    have hstored : w.stored? c.name = some c := get?_of_mem_targets hw.keyed hc
    have hnext := hr.next w c m ms' w' trivial hfirst hrun
    obtain ⟨c', hrenews, hsheds⟩ := renews_of_next hstored hnext hrun
    have htree : w'.tree = w.tree := by
      obtain ⟨request, rfl⟩ := hasks w.tree c m (hfirst ▸ List.mem_cons_self)
      have hkept : (stateOf ((World.perform ctx request).run w)).tree = w.tree :=
        keeps_tree_perform request w
      rw [show (World.perform ctx request).run w = .ok () w' from hrun] at hkept
      exact hkept
    refine ⟨hw.renews hrenews, ?_⟩
    rw [htree] at hsheds
    rw [hrenews.targetsOf hw.keyed hstored, htree]
    refine hrounds _ ?_ fun b hb hne => if_neg fun hname => hne ?_
    · rw [if_pos rfl]
      exact hsheds
    · have hb' := get?_of_mem_targets hw.keyed hb
      rw [hname] at hb'
      exact Option.some.inj (hb'.symm.trans hstored)

theorem Predicts.resumes_targets (hr : Predicts ctx r F fun _ _ => True)
    (hasks : ∀ t c, (F t c).OnlyAsks) {w : World Store} (hkeyed : w.service.IsKeyed) :
    Resumes (fun β _ => (r β).onTargets ctx .fix) calm how w := by
  cases hu : w.service.unreachable with
  | true =>
    refine whenBroken_of_no_waits fun d hd => ?_
    subst hd
    have hunreachable : d.service.store.unreachable = true := hu
    rw [run_onTargets_disturbed, hunreachable]
    rfl
  | false => exact (hr.targets hasks).resumes ⟨hkeyed, hu⟩ calm how

/-! ### Access -/

theorem keeps_service_keepAccess {β : Type} (mode : Mode) (c : Container) :
    Keeps (fun w w' : World β => w'.service = w.service) (keepAccess ctx mode c) := by
  intro w
  rw [run_keepAccess]
  cases accessOf ctx.host w.tree c.name with
  | error e => rfl
  | ok found =>
    dsimp only
    split
    · rfl
    · cases mode with
      | check => rfl
      | fix =>
        rw [meet, World.run_change]
        cases HostChange.apply w.tree _ <;> rfl

theorem resumes_access_container (w : World Store) (name : String) :
    Resumes (fun β _ => (access : Repair β).onContainer ctx .fix name) calm how w := by
  refine whenBroken_onContainer fun hu c hc => whenBroken_of_no_waits fun d hd => ?_
  subst hd
  rw [run_onContainer_stored_disturbed _ hu hc]
  exact congrArg Disturbed.waits (keeps_service_keepAccess .fix c d)

theorem resumes_access_targets (w : World Store) :
    Resumes (fun β _ => (access : Repair β).onTargets ctx .fix) calm how w := by
  refine whenBroken_of_no_waits fun d _ => congrArg Disturbed.waits ?_
  rw [run_onTargets_disturbed]
  split
  · rfl
  · exact Keeps.forM (R := fun w w' : World Disturbed => w'.service = w.service) (fun _ => rfl)
      (fun _ _ _ h h' => h'.trans h) (fun c _ => keeps_service_keepAccess .fix c) d

/-! ### Resources and nodes -/

theorem predicts_resources :
    Predicts ctx (fun _ => resources) (resourcesScript ctx.host) fun _ _ => True :=
  .of_abides keepResources_follows keepResources_follows (abides_resources ctx.host)

theorem predicts_renderNodes :
    Predicts ctx (fun _ => renderNodes) (renderNodesScript ctx.host) fun _ _ => True :=
  .of_abides keepRenderNodes_follows keepRenderNodes_follows (abides_renderNodes ctx.host)

/-! ### The graphics driver -/

/-- The driver is loaded, and `seeker` remembers it. -/
structure Recalls (host : HostView) (seeker : String) (driver : Driver) (w : World Store) :
    Prop where
  loaded : host.isPresent w.tree Driver.versionFile = .ok true
  remembered : w.drivers.get? seeker = some driver

section

variable {β : Type} [Service β] {mode : Mode} {seeker : String} {driver : Driver} {w : World β}

theorem keepDriver_of_known (c : Container)
    (hloaded : ctx.host.isPresent w.tree Driver.versionFile = .ok true)
    (hknown : knownDriver ctx.host seeker w = .ok (some driver)) :
    (keepDriver seeker ctx mode c).run w =
      ((driverPartsScript ctx.host w.tree c driver).follow ctx mode).run
        (remembering w seeker driver) := by
  rw [run_keepDriver, hloaded]
  dsimp only
  rw [hknown]
  exact keepDriverParts_follows (remembering w seeker driver) c driver

theorem keepDriver_of_remembered (c : Container)
    (hloaded : ctx.host.isPresent w.tree Driver.versionFile = .ok true)
    (hremembered : w.drivers.get? seeker = some driver) :
    (keepDriver seeker ctx mode c).run w =
      ((driverPartsScript ctx.host w.tree c driver).follow ctx mode).run w := by
  have hknown : knownDriver ctx.host seeker w = .ok (some driver) := by
    unfold knownDriver
    rw [hremembered]
  rw [keepDriver_of_known c hloaded hknown, remembering_eq_self hremembered]

/-- Without a driver there is nothing to do. -/
theorem keepDriver_of_unknown (c : Container)
    (h : ¬(ctx.host.isPresent w.tree Driver.versionFile = .ok true ∧
      ∃ driver, knownDriver ctx.host seeker w = .ok (some driver))) :
    stateOf ((keepDriver seeker ctx mode c).run w) = w := by
  rw [run_keepDriver]
  cases hloaded : ctx.host.isPresent w.tree Driver.versionFile with
  | error e => rfl
  | ok present =>
    cases present with
    | false => rfl
    | true =>
      dsimp only
      cases hknown : knownDriver ctx.host seeker w with
      | error e => rfl
      | ok found =>
        cases found with
        | none => rfl
        | some driver => exact absurd ⟨hloaded, driver, hknown⟩ h

end

/-- The driver is loaded and remembered, and no node is listed twice, or if one is, it is
    there already. -/
structure Foretells (ctx : Context) (seeker : String) (driver : Driver) (w : World Store)
    (c : Container) : Prop where
  recalls : Recalls ctx.host seeker driver w
  fine : NodesOnce ctx.host w.tree c.name ∨
    NoOperationFails (((driverPartsScript ctx.host w.tree c driver).follow ctx .fix).run w)

theorem predicts_driver (seeker : String) (driver : Driver) :
    Predicts ctx (fun _ => graphicsDriver seeker)
      (fun t c => driverPartsScript ctx.host t c driver) (Foretells ctx seeker driver) where
  run_store := fun _ c h => keepDriver_of_remembered c h.recalls.loaded h.recalls.remembered
  run_disturbed := fun _ c h => keepDriver_of_remembered c h.recalls.loaded h.recalls.remembered
  asked := by
    intro w c request h
    refine ⟨⟨h.recalls.loaded, h.recalls.remembered⟩, h.fine.imp_right fun hfine => ?_⟩
    have htwins : RespectsTwins ((driverPartsScript ctx.host w.tree c driver).follow ctx .fix) :=
      respectsTwins_follow _
    intro operation detail hresult
    exact hfine operation detail
      ((htwins w _ (World.twin_asked w request)).result.symm.trans hresult)
  next := by
    intro w c m ms w' h hmoves hrun
    refine next_driverParts hmoves (h.fine.imp_right fun hfine name device hm hagain => ?_)
    obtain ⟨ms', rfl⟩ := List.head?_eq_some_iff.mp hagain
    subst hm
    -- to add the device once more is the next move, and fails
    have hwhole : resultOf (((driverPartsScript ctx.host w.tree c driver).follow ctx .fix).run w) =
        .error (.operationFailed ("add device " ++ name ++ " to " ++ c.name)
          ("device " ++ name ++ " already exists")) := by
      rw [follow_fix, EStateM.run_bind, hmoves, run_forM_cons, hrun]
      dsimp only
      rw [run_forM_cons, Move.make, World.run_perform_add_again hrun]
      rfl
    exact hfine _ _ hwhole
  step := by
    intro w c m w' c' h hnext hrun hrenews hsheds
    refine ⟨⟨hrenews.tree.isPresent h.recalls.loaded, ?_⟩, ?_⟩
    · rw [hrenews.drivers]
      exact h.recalls.remembered
    · rw [hrenews.name]
      refine h.fine.imp (nodesOnce_of_next hnext hrun) fun hfine => ?_
      rw [hsheds.run_follow hrun] at hfine
      exact hfine

/-- Where there is a driver, the fix follows its script from the world in which the driver
    has been looked for. -/
theorem run_driver_onContainer (calm : Nat) (how : Disturbance) {seeker name : String}
    {driver : Driver} {w : World Store} {c : Container} (hu : w.service.unreachable = false)
    (hc : w.stored? name = some c)
    (hloaded : ctx.host.isPresent w.tree Driver.versionFile = .ok true)
    (hknown : knownDriver ctx.host seeker w = .ok (some driver)) :
    ((graphicsDriver seeker).onContainer ctx .fix name).run w =
        ((driverPartsScript ctx.host w.tree c driver).follow ctx .fix).run
          (remembering w seeker driver) ∧
      ((graphicsDriver seeker).onContainer ctx .fix name).run (w.disturbed calm how) =
        ((driverPartsScript ctx.host w.tree c driver).follow ctx .fix).run
          ((remembering w seeker driver).disturbed calm how) := by
  rw [run_onContainer_stored _ hu hc,
    run_onContainer_stored_disturbed (d := w.disturbed calm how) _ hu hc]
  exact ⟨keepDriver_of_known c hloaded hknown,
    keepDriver_of_known (w := w.disturbed calm how) c hloaded hknown⟩

/-- The fix of the graphics driver stops at a wait that is disturbed, and can be run again
    if no node is listed twice or nothing fails of itself. -/
theorem resumes_driver_container (seeker name : String) {w : World Store}
    (hkeyed : w.service.IsKeyed) :
    Breaks (fun β _ => (graphicsDriver seeker : Repair β).onContainer ctx .fix name) calm how w ∧
    (NodesOnce ctx.host w.tree name ∨
        NoOperationFails (((graphicsDriver seeker).onContainer ctx .fix name).run w) →
      Resumes (fun β _ => (graphicsDriver seeker : Repair β).onContainer ctx .fix name) calm how
        w) := by
  have hidle {c : Container} {P : EStateM.Result Failure (World Disturbed) Unit → Prop}
      (hu : w.service.unreachable = false) (hc : w.stored? name = some c)
      (h : ¬(ctx.host.isPresent w.tree Driver.versionFile = .ok true ∧
        ∃ driver, knownDriver ctx.host seeker w = .ok (some driver))) :
      WhenBroken (fun β _ => (graphicsDriver seeker : Repair β).onContainer ctx .fix name) calm
        how w P := by
    refine whenBroken_of_no_waits fun d hd => ?_
    subst hd
    rw [run_onContainer_stored_disturbed _ hu hc]
    exact congrArg (·.service.waits) (keepDriver_of_unknown (w := d) c h)
  constructor
  · refine whenBroken_onContainer fun hu c hc => ?_
    by_cases h : ctx.host.isPresent w.tree Driver.versionFile = .ok true ∧
        ∃ driver, knownDriver ctx.host seeker w = .ok (some driver)
    · obtain ⟨hloaded, driver, hknown⟩ := h
      obtain ⟨hstore, hdisturbed⟩ := run_driver_onContainer calm how hu hc hloaded hknown
      exact breaks_of_follows hstore hdisturbed
    · exact hidle hu hc h
  · intro hfine
    refine whenBroken_onContainer fun hu c hc => ?_
    by_cases h : ctx.host.isPresent w.tree Driver.versionFile = .ok true ∧
        ∃ driver, knownDriver ctx.host seeker w = .ok (some driver)
    · obtain ⟨hloaded, driver, hknown⟩ := h
      obtain ⟨hstore, hdisturbed⟩ := run_driver_onContainer calm how hu hc hloaded hknown
      obtain rfl : c.name = name := hkeyed name c hc
      rw [hstore] at hfine
      -- from the world in which the driver has been looked for, the fix is foreseen
      have hremembered : (remembering w seeker driver).drivers.get? seeker = some driver :=
        Dict.get?_insert_self ..
      have hforetells : Foretells ctx seeker driver (remembering w seeker driver) c :=
        ⟨⟨hloaded, hremembered⟩, hfine⟩
      have hresumes : Resumes
          (fun β _ => (graphicsDriver seeker : Repair β).onContainer ctx .fix c.name) calm how
          (remembering w seeker driver) := by
        refine (predicts_driver seeker driver).resumes_container
          (w := remembering w seeker driver) hkeyed c.name fun c' hc' => ?_
        cases hc.symm.trans hc'
        exact hforetells
      have hknown' : knownDriver ctx.host seeker (remembering w seeker driver) =
          .ok (some driver) := by
        unfold knownDriver
        rw [hremembered]
      obtain ⟨hstore', hdisturbed'⟩ :=
        run_driver_onContainer calm how (w := remembering w seeker driver) hu hc hloaded hknown'
      rw [remembering_eq_self hremembered] at hstore' hdisturbed'
      have hsame : ((graphicsDriver seeker).onContainer ctx .fix c.name).run w =
          ((graphicsDriver seeker).onContainer ctx .fix c.name).run
            (remembering w seeker driver) := hstore.trans hstore'.symm
      intro broken hbroken hwaits
      rw [hsame]
      exact hresumes broken (hdisturbed'.trans (hdisturbed.symm.trans hbroken)) hwaits
    · exact hidle hu hc h

/-! ### All repairs -/

/-- Two nodes of the driver are listed as one text.  The fix fails when it adds it again; broken
    off at this wait and run again, it finds the node there and passes. -/
example :
    let fix : Fix := fun β _ => (graphicsDriver "s" : Repair β).onContainer {} .fix "c"
    let w := nodesEndingIn [0xfe, 0xff]
    let broken := (fix Disturbed).run (w.disturbed 2 (.failure "busy"))
    resultOf ((fix Store).run w) = .error (.operationFailed
        "add device /dev/nvidia\ufffd to c" "device /dev/nvidia\ufffd already exists") ∧
      2 < (stateOf broken).service.waits ∧
      succeeds ((fix Store).run (stateOf broken).plain) = true := by
  decide +kernel

/-- A target that mounts the libraries of a driver that is no longer there. -/
def replacedDriver : World Store where
  service := .ofContainers [plainTarget "c"
    (.ofList [(libraryDevice, libraryMountOf ⟨"375", Driver.librariesOf "375"⟩)])]
  tree := .laidOut [.dir "/var/lib/lxd/containers/c/rootfs/etc/ld.so.conf.d" 0o755,
    .dir "/usr/lib/nvidia-384" 0o755, .file "/dev/nvidia0" 0o660 [],
    .file Driver.versionFile 0o444 (Text.encode "384.111")]

end BuildTargets.Repair
