/-
  BuildTargets/Proofs/Repair/Agreement.lean
  =========================================
  **The two modes of a repair agree.**

  Run on the same world, check mode and fix mode look at the same things in the
  same order, up to the first drift.  So they end alike unless there is one; and
  if there is, check mode reports it, and fix mode goes on from there with a
  remedy of exactly this drift (`Accord`).  The accord of a whole run is put
  together from the accords of its parts by one rule for a sequence and one for
  a loop (`Accord.seq`, `Accord.forM`).

  What a user sees of an accord is `Agree`, and it holds for every repair and
  for the list of all of them (`Repair.check_fix_agree`).
-/
import BuildTargets.Proofs.Repair.Progress

namespace BuildTargets

namespace World

/-- Two worlds that differ at most in the drivers that are remembered. -/
structure Same (w w' : World Store) : Prop where
  service : w'.service = w.service
  tree : w'.tree = w.tree
  journal : w'.journal = w.journal

theorem Same.refl (w : World Store) : Same w w := ⟨rfl, rfl, rfl⟩

theorem Same.trans {w w' w'' : World Store} (h : Same w w') (h' : Same w' w'') : Same w w'' :=
  ⟨h'.service.trans h.service, h'.tree.trans h.tree, h'.journal.trans h.journal⟩

end World

namespace Repair

open World

/-! ### Remedies -/

/-- What fix mode does first about a drift, and the world that it leaves. -/
inductive Remedy (ctx : Context) (d : Drift) (w : World Store) : Deed → World Store → Prop where
  /-- The directory of the container, at the path that the drift shows, gets its
      permission bits. -/
  | opened {path p m} (hresource : d.resource = path.shown)
      (haccess : accessOf ctx.host w.tree d.container = .ok (path, permissionBits m))
      (hstat : w.tree.stat path = .ok (p, .dir m))
      (hbits : permissionBits m ≠ accessibleMode) :
      Remedy ctx d w (.changed (.chmod path accessibleMode)) { w with
        tree := w.tree.setMode p accessibleMode
        journal := w.journal ++ [.changed (.chmod path accessibleMode)] }
  /-- The device at which the drift is has been asked for. -/
  | added (device : Device) :
      Remedy ctx d w (.asked (.addDevice d.container d.resource device))
        (w.asked (.addDevice d.container d.resource device))
  /-- The device at which the drift is has been asked to go. -/
  | removed :
      Remedy ctx d w (.asked (.removeDevice d.container d.resource))
        (w.asked (.removeDevice d.container d.resource))
  /-- The loader configuration of the container has been created, and got its
      permission bits right after. -/
  | created {q} (hresource : d.resource = loaderConfigPath ctx.host d.container)
      (hgap : w.tree.walk false (ctx.host.path d.resource) = .ok (.gap q false)) :
      Remedy ctx d w
        (.changed (.write (ctx.host.path d.resource) (Text.encode loaderConfigText))) { w with
          tree := w.tree.put q (.file loaderConfigMode (Text.encode loaderConfigText))
          journal := w.journal ++
            [.changed (.write (ctx.host.path d.resource) (Text.encode loaderConfigText))] ++
            [.changed (.chmod (ctx.host.path d.resource) loaderConfigMode)] }

/-- A remedy shows: in the requests that the service has accepted, or in the
    tree, whatever happens after it. -/
theorem Remedy.shows {ctx : Context} {d : Drift} {w w₁ w' : World Store} {deed : Deed}
    (h : Remedy ctx d w deed w₁) (hon : w₁.Onward w') :
    w'.service.requests ≠ w.service.requests ∨ w'.tree ≠ w.tree := by
  obtain ⟨ds, -, hrequests⟩ := hon.deeds
  cases h with
  | @opened _ p m _ _ hstat hbits =>
    right
    intro htree
    have hp := Tree.node?_of_stat hstat
    have hp₁ : (w.tree.setMode p accessibleMode).node? p = some (.dir accessibleMode) := by
      rw [Tree.node?_setMode, if_pos rfl, hp]
      rfl
    obtain ⟨k, hk, hmode⟩ := hon.tree.dir hp₁
    rw [htree, hp, Option.some.injEq, Node.dir.injEq] at hk
    have hm : m = accessibleMode := hk.trans (hmode.elim id id)
    exact hbits (by rw [hm]; decide)
  | added device =>
    left
    rw [hrequests]
    simp [World.asked, Store.logged]
  | removed =>
    left
    rw [hrequests]
    simp [World.asked, Store.logged]
  | @created q _ hgap =>
    right
    intro htree
    have hq := (Tree.walk_eq_gap_iff.mp hgap).2.want_missing
    have hq₁ : (w.tree.put q (.file loaderConfigMode (Text.encode loaderConfigText))).node? q =
        some (.file loaderConfigMode (Text.encode loaderConfigText)) := by
      rw [Tree.node?_put, if_pos rfl]
    obtain ⟨n, hn⟩ := hon.tree.stands hq₁
    rw [htree, hq] at hn
    cases hn

theorem Remedy.journal {ctx : Context} {d : Drift} {w w₁ w' : World Store} {deed : Deed}
    (h : Remedy ctx d w deed w₁) (hon : w₁.Onward w') :
    ∃ deeds, w'.journal = w.journal ++ deed :: deeds := by
  obtain ⟨ds, hjournal, -⟩ := hon.deeds
  cases h with
  | opened => exact ⟨ds, by rw [hjournal]; simp⟩
  | added => exact ⟨ds, by rw [hjournal]; simp [World.asked]⟩
  | removed => exact ⟨ds, by rw [hjournal]; simp [World.asked]⟩
  | created =>
    refine ⟨.changed (.chmod (ctx.host.path d.resource) loaderConfigMode) :: ds, ?_⟩
    rw [hjournal]
    simp

/-! ### Accords -/

/-- How a check and a fix of the same things end on a world. -/
inductive Accord (ctx : Context) (check fix : Action (World Store) Unit) (w : World Store) :
    Prop where
  /-- Nothing needs fixing. -/
  | passes {w'} (hsame : w.Same w') (hcheck : check.run w = .ok () w')
      (hfix : fix.run w = .ok () w')
  /-- The world cannot be looked at. -/
  | fails {e w'} (hsame : w.Same w') (he : e.drift? = none) (hcheck : check.run w = .error e w')
      (hfix : fix.run w = .error e w')
  /-- There is a drift, and its remedy has been begun. -/
  | drifts {d w' w₀ deed w₁} (hcheck : check.run w = .error (.drift d) w') (hsame : w.Same w₀)
      (hremedy : Remedy ctx d w₀ deed w₁) (hon : w₁.Onward (stateOf (fix.run w)))
  /-- There is a file missing that cannot be created. -/
  | refused {d e detail w' w₀} (hcheck : check.run w = .error (.drift d) w') (hsame : w.Same w₀)
      (hresource : d.resource = loaderConfigPath ctx.host d.container)
      (hwrite : w.tree.writeFile (ctx.host.path d.resource) (Text.encode loaderConfigText) =
        .error e)
      (hfix : fix.run w = .error (.repairFailed d.container detail) w₀)

namespace Accord

variable {ctx : Context} {check fix check' fix' : Action (World Store) Unit} {w w' : World Store}

/-- An accord only depends on the runs, and not on what is remembered. -/
theorem shift (hsame : w.Same w') (hcheck : check.run w = check'.run w')
    (hfix : fix.run w = fix'.run w') (h : Accord ctx check' fix' w') : Accord ctx check fix w := by
  cases h with
  | passes hs hc hf => exact .passes (hsame.trans hs) (hcheck.trans hc) (hfix.trans hf)
  | fails hs he hc hf => exact .fails (hsame.trans hs) he (hcheck.trans hc) (hfix.trans hf)
  | drifts hc hs hremedy hon =>
    exact .drifts (hcheck.trans hc) (hsame.trans hs) hremedy (by rw [hfix]; exact hon)
  | refused hc hs hresource hwrite hf =>
    rw [hsame.tree] at hwrite
    exact .refused (hcheck.trans hc) (hsame.trans hs) hresource hwrite (hfix.trans hf)

theorem seq (h : Accord ctx check fix w) (h' : ∀ w', w.Same w' → Accord ctx check' fix' w')
    (hon' : GoesOnward fix') :
    Accord ctx (check >>= fun _ => check') (fix >>= fun _ => fix') w := by
  cases h with
  | passes hs hc hf =>
    refine (h' _ hs).shift hs ?_ ?_
    · rw [EStateM.run_bind, hc]
    · rw [EStateM.run_bind, hf]
  | fails hs he hc hf =>
    refine .fails hs he ?_ ?_
    · rw [EStateM.run_bind, hc]
    · rw [EStateM.run_bind, hf]
  | @drifts d wc w₀ deed w₁ hc hs hremedy hon =>
    have hcheck : (check >>= fun _ => check').run w = .error (.drift d) wc := by
      rw [EStateM.run_bind, hc]
    exact .drifts hcheck hs hremedy (onward_bind hon fun _ => hon')
  | @refused d e detail wc w₀ hc hs hresource hwrite hf =>
    have hcheck : (check >>= fun _ => check').run w = .error (.drift d) wc := by
      rw [EStateM.run_bind, hc]
    have hfix : (fix >>= fun _ => fix').run w = .error (.repairFailed d.container detail) w₀ := by
      rw [EStateM.run_bind, hf]
    exact .refused hcheck hs hresource hwrite hfix

theorem forM {α : Type} {check fix : α → Action (World Store) Unit} {l : List α}
    (h : ∀ a ∈ l, ∀ w', w.Same w' → Accord ctx (check a) (fix a) w')
    (hon : ∀ a ∈ l, GoesOnward (fix a)) : Accord ctx (l.forM check) (l.forM fix) w := by
  induction l generalizing w with
  | nil => exact .passes (.refl w) rfl rfl
  | cons a rest ih =>
    rw [List.forM_eq_forM, List.forM_cons, List.forM_cons]
    have hrest : GoesOnward (rest.forM fix) :=
      GoesOnward.forM fun b hb => hon b (List.mem_cons_of_mem _ hb)
    refine seq (h a List.mem_cons_self w (.refl w)) (fun w' hs => ?_) hrest
    refine ih (fun b hb w'' hs' => ?_) fun b hb => hon b (List.mem_cons_of_mem _ hb)
    exact h b (List.mem_cons_of_mem _ hb) w'' (hs.trans hs')

/-! The rules for one routine in its two modes. -/

variable {x y : Mode → Action (World Store) Unit}

theorem of_same_run (hsame : w.Same w') (hrun : ∀ mode, (x mode).run w = (y mode).run w')
    (h : Accord ctx (y .check) (y .fix) w') : Accord ctx (x .check) (x .fix) w :=
  h.shift hsame (hrun .check) (hrun .fix)

theorem of_ok (hrun : ∀ mode, (x mode).run w = .ok () w) : Accord ctx (x .check) (x .fix) w :=
  .passes (.refl w) (hrun .check) (hrun .fix)

theorem of_error {e : Failure} (he : e.drift? = none) (hrun : ∀ mode, (x mode).run w = .error e w) :
    Accord ctx (x .check) (x .fix) w :=
  .fails (.refl w) he (hrun .check) (hrun .fix)

/-- A drift is reported by check mode, and fix mode begins with its remedy. -/
theorem of_meet {d : Drift} {remedy : Action (World Store) Unit} {deed : Deed} {w₁ : World Store}
    (hrun : ∀ mode, (x mode).run w = (meet mode d remedy).run w)
    (hremedy : Remedy ctx d w deed w₁) (hon : w₁.Onward (stateOf (remedy.run w))) :
    Accord ctx (x .check) (x .fix) w := by
  refine .drifts (hrun .check) (.refl w) hremedy ?_
  rw [hrun .fix]
  exact hon

end Accord

/-! ### The parts of repairs -/

variable {ctx : Context} {c : Container} {w : World Store}

structure Serves (w : World Store) (container : String) : Prop where
  reachable : w.service.unreachable = false
  stored : w.service.containers.contains container = true

theorem Serves.same {w' : World Store} {container : String} (h : Serves w container)
    (hs : w.Same w') : Serves w' container :=
  ⟨by rw [hs.service]; exact h.reachable, by rw [hs.service]; exact h.stored⟩

theorem Serves.onward_add (h : Serves w c.name) (name : String) (device : Device) :
    (w.asked (.addDevice c.name name device)).Onward
      (stateOf ((World.perform ctx (.addDevice c.name name device)).run w)) :=
  GoesOnward.of_accepted (Or.inl ⟨c.name, name, device, rfl⟩) h.reachable h.stored

theorem Serves.onward_remove (h : Serves w c.name) (name : String) :
    (w.asked (.removeDevice c.name name)).Onward
      (stateOf ((World.perform ctx (.removeDevice c.name name)).run w)) :=
  GoesOnward.of_accepted (Or.inr ⟨c.name, name, rfl⟩) h.reachable h.stored

theorem accord_keepAccess : Accord ctx (keepAccess ctx .check c) (keepAccess ctx .fix c) w := by
  cases h : accessOf ctx.host w.tree c.name with
  | error e =>
    refine .of_error (x := (keepAccess ctx · c)) (drift?_of_accessOf h) fun mode => ?_
    rw [run_keepAccess, h]
  | ok found =>
    obtain ⟨path, bits⟩ := found
    by_cases hbits : bits = accessibleMode
    · refine .of_ok (x := (keepAccess ctx · c)) fun mode => ?_
      rw [run_keepAccess, h]
      exact if_pos hbits
    · have hrun (mode : Mode) := run_keepAccess ctx mode c w
      simp only [h, if_neg hbits] at hrun
      obtain ⟨p, m, hstat, rfl⟩ := stat_of_accessOf h
      refine .of_meet (x := (keepAccess ctx · c)) hrun (.opened rfl h hstat hbits) ?_
      rw [World.run_change, HostChange.apply, Tree.chmod_of_stat hstat]
      exact .refl _

theorem accord_passNode (h : Serves w c.name) (reason node : String) :
    Accord ctx (passNode ctx .check c reason node) (passNode ctx .fix c reason node) w := by
  unfold passNode
  split
  · exact .of_ok (x := fun _ => pure ()) fun _ => rfl
  · exact .of_meet (x := (meet · _ _)) (fun _ => rfl) (.added _) (h.onward_add node _)

theorem accord_keepResource (h : Serves w c.name) (name : String) (device : Device) :
    Accord ctx (keepResource ctx .check c name device) (keepResource ctx .fix c name device) w := by
  have hrun (mode : Mode) := run_keepResource ctx mode c w name device
  cases hpath : device.hostPath? with
  | none =>
    simp only [hpath] at hrun
    exact .of_ok (x := (keepResource ctx · c name device)) hrun
  | some path =>
    simp only [hpath] at hrun
    cases hpresent : ctx.host.isPresent w.tree path with
    | error e =>
      simp only [hpresent] at hrun
      exact .of_error (x := (keepResource ctx · c name device)) rfl hrun
    | ok present =>
      cases present with
      | true =>
        simp only [hpresent] at hrun
        exact .of_ok (x := (keepResource ctx · c name device)) hrun
      | false =>
        simp only [hpresent] at hrun
        exact .of_meet (x := (keepResource ctx · c name device)) hrun .removed
          (h.onward_remove name)

theorem accord_passNodes (h : Serves w c.name) (reason : String) (nodes : List String) :
    Accord ctx (nodes.forM (passNode ctx .check c reason))
      (nodes.forM (passNode ctx .fix c reason)) w :=
  .forM (fun node _ _ hs => accord_passNode (h.same hs) reason node)
    fun node _ => goesOnward_passNode reason node

theorem accord_keepRenderNodes (h : Serves w c.name) :
    Accord ctx (keepRenderNodes ctx .check c) (keepRenderNodes ctx .fix c) w := by
  have hrun (mode : Mode) := run_keepRenderNodes ctx mode c w
  cases hconfined : ctx.host.confined with
  | true =>
    simp only [hconfined, if_true] at hrun
    exact .of_ok (x := (keepRenderNodes ctx · c)) hrun
  | false =>
    cases hnodes : ctx.host.nodes w.tree renderNodeDir isRenderNode with
    | error e =>
      simp only [hconfined, hnodes, Bool.false_eq_true, if_false] at hrun
      exact .of_error (x := (keepRenderNodes ctx · c)) rfl hrun
    | ok nodes =>
      simp only [hconfined, hnodes, Bool.false_eq_true, if_false] at hrun
      exact .of_same_run (x := (keepRenderNodes ctx · c)) (.refl w) hrun
        (accord_passNodes h _ nodes)

theorem accord_keepDriverNodes (h : Serves w c.name) :
    Accord ctx (keepDriverNodes ctx .check c) (keepDriverNodes ctx .fix c) w := by
  have hrun (mode : Mode) := run_keepDriverNodes ctx mode c w
  cases hnodes : ctx.host.nodes w.tree driverNodeDir isDriverNode with
  | error e =>
    simp only [hnodes] at hrun
    exact .of_error (x := (keepDriverNodes ctx · c)) rfl hrun
  | ok nodes =>
    simp only [hnodes] at hrun
    exact .of_same_run (x := (keepDriverNodes ctx · c)) (.refl w) hrun (accord_passNodes h _ nodes)

theorem accord_keepLibraries (h : Serves w c.name) (driver : Driver) :
    Accord ctx (keepLibraries ctx .check c driver) (keepLibraries ctx .fix c driver) w := by
  have hadd := goesOnward_add ctx c.name libraryDevice (libraryMountOf driver)
  unfold keepLibraries
  split
  · split
    · exact .of_ok (x := fun _ => pure ()) fun _ => rfl
    · exact .of_meet (x := (meet · _ _)) (fun _ => rfl) .removed
        (onward_bind (h.onward_remove libraryDevice) fun _ => hadd)
  · exact .of_meet (x := (meet · _ _)) (fun _ => rfl) (.added _) (h.onward_add libraryDevice _)

theorem accord_keepLoaderConfig :
    Accord ctx (keepLoaderConfig ctx .check c) (keepLoaderConfig ctx .fix c) w := by
  have hrun (mode : Mode) := run_keepLoaderConfig ctx mode c w
  cases hpresent : ctx.host.isPresent w.tree (loaderConfigPath ctx.host c.name) with
  | error e =>
    simp only [hpresent] at hrun
    exact .of_error (x := (keepLoaderConfig ctx · c)) rfl hrun
  | ok present =>
    cases present with
    | true =>
      simp only [hpresent] at hrun
      exact .of_ok (x := (keepLoaderConfig ctx · c)) hrun
    | false =>
      simp only [hpresent] at hrun
      rcases run_writeLoaderConfig hpresent with ⟨e, detail, hwrite, hrefused⟩ | ⟨q, hgap, hdone⟩
      · have hfix := (hrun .fix).trans hrefused
        exact .refused (hrun .check) (.refl w) rfl hwrite hfix
      · refine .of_meet (x := (keepLoaderConfig ctx · c)) hrun (.created rfl hgap) ?_
        rw [hdone]
        exact .refl _

theorem accord_keepDriverParts (h : Serves w c.name) (driver : Driver) :
    Accord ctx (keepDriverParts ctx .check c driver) (keepDriverParts ctx .fix c driver) w := by
  refine .seq (accord_keepLibraries h driver) (fun w₁ hs₁ => ?_) ?_
  · refine .seq accord_keepLoaderConfig (fun w₂ hs₂ => ?_) goesOnward_keepDriverNodes
    exact accord_keepDriverNodes ((h.same hs₁).same hs₂)
  · exact goesOnward_keepLoaderConfig.bind fun _ => goesOnward_keepDriverNodes

theorem accord_keepDriver (h : Serves w c.name) (seeker : String) :
    Accord ctx (keepDriver seeker ctx .check c) (keepDriver seeker ctx .fix c) w := by
  have hrun (mode : Mode) := run_keepDriver ctx mode c w seeker
  cases hpresent : ctx.host.isPresent w.tree Driver.versionFile with
  | error e =>
    simp only [hpresent] at hrun
    exact .of_error (x := (keepDriver seeker ctx · c)) rfl hrun
  | ok present =>
    cases present with
    | false =>
      simp only [hpresent] at hrun
      exact .of_ok (x := (keepDriver seeker ctx · c)) hrun
    | true =>
      cases hknown : knownDriver ctx.host seeker w with
      | error e =>
        simp only [hpresent, hknown] at hrun
        exact .of_error (x := (keepDriver seeker ctx · c)) rfl hrun
      | ok found =>
        cases found with
        | none =>
          simp only [hpresent, hknown] at hrun
          exact .of_ok (x := (keepDriver seeker ctx · c)) hrun
        | some driver =>
          simp only [hpresent, hknown] at hrun
          have hs : w.Same (remembering w seeker driver) := ⟨rfl, rfl, rfl⟩
          exact .of_same_run (x := (keepDriver seeker ctx · c)) hs hrun
            (accord_keepDriverParts (h.same hs) driver)

/-! ### Whole repairs -/

variable {seeker : String} {r : Repair Store}

theorem accord_run (hr : r ∈ standard seeker) (h : Serves w c.name) :
    Accord ctx (r.run ctx .check c) (r.run ctx .fix c) w := by
  simp only [standard, List.mem_cons, List.not_mem_nil, or_false] at hr
  rcases hr with rfl | rfl | rfl | rfl
  · exact accord_keepAccess
  · exact .forM (fun e _ _ hs => accord_keepResource (h.same hs) e.1 e.2)
      fun e _ => goesOnward_keepResource e.1 e.2
  · exact accord_keepRenderNodes h
  · exact accord_keepDriver h seeker

theorem accord_onTargets (hr : r ∈ standard seeker) (hkeyed : w.service.IsKeyed) :
    Accord ctx (r.onTargets ctx .check) (r.onTargets ctx .fix) w := by
  have hrun (mode : Mode) := run_onTargets ctx mode r w
  cases hu : w.service.unreachable with
  | true =>
    simp only [hu, if_true] at hrun
    exact .of_error (x := (r.onTargets ctx ·)) rfl hrun
  | false =>
    simp only [hu, Bool.false_eq_true, if_false] at hrun
    refine .of_same_run (x := (r.onTargets ctx ·)) (.refl w) hrun (.forM (fun c hc w' hs => ?_) ?_)
    · have hserves : Serves w c.name :=
        ⟨hu, Option.isSome_of_eq_some (get?_of_mem_targets hkeyed hc)⟩
      exact accord_run hr (hserves.same hs)
    · exact fun c _ => goesOnward_run hr

theorem accord_onContainer (hr : r ∈ standard seeker) (hkeyed : w.service.IsKeyed)
    (name : String) :
    Accord ctx (r.onContainer ctx .check name) (r.onContainer ctx .fix name) w := by
  have hrun (mode : Mode) := run_onContainer ctx mode r w name
  cases hu : w.service.unreachable with
  | true =>
    simp only [hu, if_true] at hrun
    exact .of_error (x := (r.onContainer ctx · name)) rfl hrun
  | false =>
    simp only [hu, Bool.false_eq_true, if_false] at hrun
    cases hc : w.stored? name with
    | none =>
      simp only [hc] at hrun
      exact .of_error (x := (r.onContainer ctx · name)) rfl hrun
    | some c =>
      simp only [hc] at hrun
      have hname : c.name = name := hkeyed name c hc
      have hserves : Serves w c.name := ⟨hu, by rw [hname]; exact Option.isSome_of_eq_some hc⟩
      exact .of_same_run (x := (r.onContainer ctx · name)) (.refl w) hrun (accord_run hr hserves)

theorem accord_all (hprivileged : ctx.privileged = true) (seeker : String)
    (hkeyed : w.service.IsKeyed) :
    Accord ctx (checkAll (standard seeker) ctx) (fixAll (standard seeker) ctx) w := by
  refine .shift (.refl w) rfl (run_fixAll hprivileged _ w) (.forM ?_ ?_)
  · intro r hr w' hs
    exact accord_onTargets hr (by rw [hs.service]; exact hkeyed)
  · exact fun r hr => goesOnward_onTargets hr

/-! ### What a user sees -/

/-- How a check and a fix that begin on the same world have to agree. -/
structure Agree (ctx : Context) (w : World Store) (check fix : Action (World Store) Unit) :
    Prop where
  /-- The check passes if and only if the fix succeeds without having asked
      anything of the service or changed anything on the host. -/
  passes : (∃ w', check.run w = .ok () w') ↔
    ∃ w', fix.run w = .ok () w' ∧ w'.service.requests = w.service.requests ∧ w'.tree = w.tree
  /-- A check that cannot look ends as the fix does, which has done nothing. -/
  fails : ∀ e w', check.run w = .error e w' → e.drift? = none →
    ∃ w'', fix.run w = .error e w'' ∧ w.Same w''
  /-- A drift that the check reports is the one that the fix remedies first,
      unless it is a missing file and the host refuses to have it written. -/
  drifts : ∀ d w', check.run w = .error (.drift d) w' →
    (∃ w₀ deed w₁, w.Same w₀ ∧ Remedy ctx d w₀ deed w₁ ∧ w₁.Onward (stateOf (fix.run w)) ∧
      ∃ deeds, (stateOf (fix.run w)).journal = w.journal ++ deed :: deeds) ∨
    ∃ e detail w'', d.resource = loaderConfigPath ctx.host d.container ∧
      w.tree.writeFile (ctx.host.path d.resource) (Text.encode loaderConfigText) = .error e ∧
      fix.run w = .error (.repairFailed d.container detail) w'' ∧ w.Same w''

theorem Accord.agree {check fix : Action (World Store) Unit} (h : Accord ctx check fix w) :
    Agree ctx w check fix := by
  cases h with
  | @passes w' hs hc hf =>
    refine ⟨⟨fun _ => ⟨w', hf, ?_, hs.tree⟩, fun _ => ⟨w', hc⟩⟩, ?_, ?_⟩
    · rw [hs.service]
    · intro e w'' hc'
      rw [hc] at hc'
      cases hc'
    · intro d w'' hc'
      rw [hc] at hc'
      cases hc'
  | @fails e w' hs he hc hf =>
    refine ⟨⟨?_, ?_⟩, ?_, ?_⟩
    · rintro ⟨w'', hc'⟩
      rw [hc] at hc'
      cases hc'
    · rintro ⟨w'', hf', -⟩
      rw [hf] at hf'
      cases hf'
    · intro e' w'' hc' _
      rw [hc] at hc'
      cases hc'
      exact ⟨w', hf, hs⟩
    · intro d w'' hc'
      rw [hc] at hc'
      cases hc'
      cases he
  | @drifts d w' w₀ deed w₁ hc hs hremedy hon =>
    refine ⟨⟨?_, ?_⟩, ?_, ?_⟩
    · rintro ⟨w'', hc'⟩
      rw [hc] at hc'
      cases hc'
    · rintro ⟨w'', hf, hrequests, htree⟩
      rw [hf] at hon
      rw [← hs.service] at hrequests
      rw [← hs.tree] at htree
      rcases hremedy.shows hon with hne | hne
      · exact absurd hrequests hne
      · exact absurd htree hne
    · intro e w'' hc' he
      rw [hc] at hc'
      cases hc'
      cases he
    · intro d' w'' hc'
      rw [hc] at hc'
      cases hc'
      obtain ⟨deeds, hjournal⟩ := hremedy.journal hon
      rw [hs.journal] at hjournal
      exact Or.inl ⟨w₀, deed, w₁, hs, hremedy, hon, deeds, hjournal⟩
  | @refused d e detail w' w₀ hc hs hresource hwrite hf =>
    refine ⟨⟨?_, ?_⟩, ?_, ?_⟩
    · rintro ⟨w'', hc'⟩
      rw [hc] at hc'
      cases hc'
    · rintro ⟨w'', hf', -⟩
      rw [hf] at hf'
      cases hf'
    · intro e' w'' hc' he
      rw [hc] at hc'
      cases hc'
      cases he
    · intro d' w'' hc'
      rw [hc] at hc'
      cases hc'
      exact Or.inr ⟨e, detail, w₀, hresource, hwrite, hf, hs⟩

/-- Check and fix agree: each repair by itself, on all build targets or on one
    container, and all of them in a process that may change the host. -/
theorem check_fix_agree (ctx : Context) (seeker : String) (w : World Store)
    (hkeyed : w.service.IsKeyed) :
    (∀ r ∈ standard seeker,
      Agree ctx w (r.onTargets ctx .check) (r.onTargets ctx .fix) ∧
      ∀ name, Agree ctx w (r.onContainer ctx .check name) (r.onContainer ctx .fix name)) ∧
    (ctx.privileged = true →
      Agree ctx w (checkAll (standard seeker) ctx) (fixAll (standard seeker) ctx) ∧
      ∀ name, Agree ctx w (checkOne (standard seeker) ctx name)
        (fixOne (standard seeker) ctx name)) := by
  refine ⟨fun r hr => ⟨?_, fun name => ?_⟩, fun hprivileged => ⟨?_, fun name => ?_⟩⟩
  · exact (accord_onTargets hr hkeyed).agree
  · exact (accord_onContainer hr hkeyed name).agree
  · exact (accord_all hprivileged seeker hkeyed).agree
  · refine Accord.agree (.shift (.refl w) rfl (run_fixOne hprivileged _ name w) (.forM ?_ ?_))
    · intro r hr w' hs
      exact accord_onContainer hr (by rw [hs.service]; exact hkeyed) name
    · exact fun r hr => goesOnward_onContainer hr name

/-- A build target with no devices whose directory only its owner can enter:
    the two modes agree about it, and fixing opens the directory. -/
theorem check_fix_agree_closed_directory :
    let c : Container := ⟨"c", .stopped,
      .ofList [(Container.architectureTag, "amd64"), (Container.frameworkTag, "f")], .empty, none⟩
    let tree := ["var", "var/lib", "var/lib/lxd", "var/lib/lxd/containers"].foldl
      (fun t path => t.put (Route.ofPath path).names (.dir 0o755)) Tree.bare
    let w : World Store := ⟨.ofContainers [c],
      tree.put ["var", "lib", "lxd", "containers", "c"] (.dir 0o700), .empty, []⟩
    w.service.IsKeyed ∧
      Agree {} w (checkAll (standard "s") {}) (fixAll (standard "s") {}) ∧
      Agree {} w (access.onContainer {} .check "c") (access.onContainer {} .fix "c") ∧
      (stateOf ((fixAll (standard "s") {}).run w)).journal =
        [.changed (.chmod "/var/lib/lxd/containers/c" accessibleMode)] := by
  intro c tree w
  have hkeyed : w.service.IsKeyed := Store.isKeyed_ofContainers [c]
  have h := check_fix_agree {} "s" w hkeyed
  refine ⟨hkeyed, (h.2 rfl).1, (h.1 access (by simp [standard])).2 "c", ?_⟩
  decide +kernel

end Repair

end BuildTargets
