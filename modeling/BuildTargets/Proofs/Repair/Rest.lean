/-
  BuildTargets/Proofs/Repair/Rest.lean
  ====================================
  **Each repair comes to rest.**

  A fix by one repair alone that succeeds leaves nothing for it to do: a check by
  the same repair passes right after it, and a second fix does nothing
  (`repairs_rest`).  Nothing is assumed about the host.  A step of the loop over the
  build targets may give a directory its permission bits that another target needs
  too, or make a path lead somewhere, but it takes nothing away; what the step before
  it has seen to stays so.

  The loop over the targets is left out for the graphics driver.  Its fix creates
  files, and through links these may be met by the steps that follow
  (`tidy_fix_not_converging`).  On one container it comes to rest all the same.
-/
import BuildTargets.Proofs.Repair.Convergence

namespace BuildTargets

/-- A loop whose rounds all leave a state as it is leaves it as it is. -/
theorem run_forM_idle {σ α : Type} {f : α → Action σ Unit} {l : List α} {s : σ}
    (h : ∀ a ∈ l, (f a).run s = .ok () s) : (l.forM f).run s = .ok () s := by
  induction l with
  | nil => rfl
  | cons a rest ih =>
    rw [run_forM_cons, h a List.mem_cons_self]
    exact ih fun b hb => h b (List.mem_cons_of_mem _ hb)

theorem Decides.run_eq {σ : Type} {x : Action σ Unit} {P : Prop} {s : σ}
    (h : Decides (· = s) x P) (hP : P) : x.run s = .ok () s := by
  obtain ⟨hiff, hkeep⟩ := h s rfl
  obtain ⟨s', hrun⟩ := hiff.mpr hP
  rw [hkeep s' hrun] at hrun
  exact hrun

namespace Repair

variable {ctx : Context} {seeker : String} {r : Repair Store} {w w' w₁ : World Store}
  {c c' : Container}

/-! ### Rest -/

/-- On this world the check passes, the fix succeeds, and neither changes anything:
    no request, no change of the host, nothing that is remembered. -/
structure AtRest (check fix : Action (World Store) Unit) (w : World Store) : Prop where
  check : check.run w = .ok () w
  fix : fix.run w = .ok () w

/-- A check and a fix that agree are at rest where the check passes idly. -/
theorem Accord.atRest {check fix : Action (World Store) Unit} (h : Accord ctx check fix w)
    (hcheck : check.run w = .ok () w) : AtRest check fix w := by
  refine ⟨hcheck, ?_⟩
  cases h with
  | passes _ hc hf =>
    rw [hcheck] at hc
    cases hc
    exact hf
  | fails _ _ hc _ =>
    rw [hcheck] at hc
    cases hc
  | drifts hc _ _ _ =>
    rw [hcheck] at hc
    cases hc
  | refused hc _ _ _ _ =>
    rw [hcheck] at hc
    cases hc

/-! ### From one container to all of them, and to one by its name -/

/-- What a repair sees to: a fix of a container establishes `Post` for it, and a
    check where it holds passes idly. -/
structure SeesTo (r : Repair Store) (ctx : Context) (Post : World Store → Container → Prop) :
    Prop where
  fix : ∀ {c w w'}, w.stored? c.name = some c → (r.run ctx .fix c).run w = .ok () w' →
    ∀ c', w'.stored? c.name = some c' → Post w' c'
  check : ∀ {c w}, Post w c → (r.run ctx .check c).run w = .ok () w

variable {Post : World Store → Container → Prop}

theorem SeesTo.onContainer (h : SeesTo r ctx Post) (hr : r ∈ standard seeker)
    (hkeyed : w.service.IsKeyed) {name : String}
    (hrun : (r.onContainer ctx .fix name).run w = .ok () w₁) :
    AtRest (r.onContainer ctx .check name) (r.onContainer ctx .fix name) w₁ := by
  have hon : w.Onward w₁ := (goesOnward_onContainer hr name).ok hrun
  apply (accord_onContainer hr (hon.keyed hkeyed) name).atRest
  rw [run_onContainer] at hrun
  split at hrun
  · cases hrun
  · next hreachable =>
    split at hrun
    · next c hc =>
      obtain rfl : c.name = name := hkeyed name c hc
      obtain ⟨devices, hc₁⟩ := hon.kept hc
      have hu : w₁.service.unreachable = false := by
        rw [hon.reachable]
        simpa using hreachable
      rw [run_onContainer_stored r hu hc₁]
      exact h.check (h.fix hc hrun _ hc₁)
    · cases hrun

theorem SeesTo.onTargets (h : SeesTo r ctx Post) (hr : r ∈ standard seeker)
    (hothers : ∀ {c w w'}, w.stored? c.name = some c → (r.run ctx .fix c).run w = .ok () w' →
      (∀ n, n ≠ c.name → w'.stored? n = w.stored? n) ∧ ∀ c', Post w c' → Post w' c')
    (hkeyed : w.service.IsKeyed) (hrun : (r.onTargets ctx .fix).run w = .ok () w₁) :
    AtRest (r.onTargets ctx .check) (r.onTargets ctx .fix) w₁ := by
  have hstep (c : Container) (w w' : World Store) (_ : True) (hc : w.stored? c.name = some c)
      (_ : c.isTarget = true) (_ : True) (hrun : (r.run ctx .fix c).run w = .ok () w') :
      FixStep (fun _ => True) (fun _ _ => True) Post c.name w w' := by
    obtain ⟨hsame, hkept⟩ := hothers hc hrun
    exact ⟨trivial, h.fix hc hrun, hsame, fun _ _ _ => trivial, fun c' _ hpost => hkept c' hpost⟩
  obtain ⟨-, hon, hpost⟩ :=
    onTargets_fix_ok hr hstep hkeyed trivial (fun _ _ => trivial) hrun
  apply (accord_onTargets hr (hon.keyed hkeyed)).atRest
  rw [run_onTargets] at hrun ⊢
  split at hrun
  · cases hrun
  · next hreachable =>
    rw [hon.reachable, if_neg hreachable]
    exact run_forM_idle fun c hc => h.check (hpost c hc)

/-! ### What each repair sees to -/

theorem seesTo_access : SeesTo access ctx fun w c => AccessClear ctx.host w.tree c where
  fix := by
    intro c w w' hc hrun c' hc'
    obtain ⟨hservice, -, htree⟩ := reshapes_of_keepAccess hrun
    have hsame : c' = c := by
      rw [World.stored?, hservice, ← World.stored?, hc] at hc'
      exact (Option.some.inj hc').symm
    rw [hsame]
    rcases htree with ⟨heq, hclear⟩ | ⟨path, p, m, haccess, hstat, heq⟩
    · rw [heq]
      exact hclear
    · rw [heq]
      exact accessClear_setMode haccess hstat
  check := fun {_ w} h => (decides_keepAccess (t := w.tree) (by simp)).run_eq h

theorem others_of_access (hrun : (access.run ctx .fix c).run w = .ok () w') :
    (∀ n, n ≠ c.name → w'.stored? n = w.stored? n) ∧
      ∀ c', AccessClear ctx.host w.tree c' → AccessClear ctx.host w'.tree c' := by
  have hon : w.Onward w' := goesOnward_keepAccess.ok hrun
  refine ⟨fun n _ => ?_, fun c' h => h.grows hon.tree⟩
  rw [World.stored?, (reshapes_of_keepAccess hrun).service, World.stored?]

theorem seesTo_resources : SeesTo resources ctx fun w c => ResourcesClear ctx.host w.tree c where
  fix := fun hc hrun _ hc' => resourcesClear_of_keepResources hc hrun hc'
  check := fun {_ w} h => (decides_keepResources (t := w.tree) (by simp)).run_eq h

theorem others_of_resources (hc : w.stored? c.name = some c)
    (hrun : (resources.run ctx .fix c).run w = .ok () w') :
    (∀ n, n ≠ c.name → w'.stored? n = w.stored? n) ∧
      ∀ c', ResourcesClear ctx.host w.tree c' → ResourcesClear ctx.host w'.tree c' := by
  obtain ⟨he, -⟩ := edits_of_keepResources hc hrun
  refine ⟨he.others, fun c' h => ?_⟩
  rw [he.tree]
  exact h

/-- What a fix of the render nodes comes to: the nodes of an unchanged host, if any
    are wanted. -/
theorem fix_keepRenderNodes (hc : w.stored? c.name = some c)
    (hrun : (keepRenderNodes ctx .fix c).run w = .ok () w') :
    w'.tree = w.tree ∧ (∀ n, n ≠ c.name → w'.stored? n = w.stored? n) ∧
      ∀ c', w'.stored? c.name = some c' → RenderNodesClear ctx.host w'.tree c' := by
  rw [run_keepRenderNodes] at hrun
  split at hrun
  · next hconfined =>
    cases hrun
    exact ⟨rfl, fun _ _ => rfl, fun _ _ => Or.inl hconfined⟩
  · split at hrun
    · next nodes hnodes =>
      obtain ⟨he, hhas⟩ := edits_of_passNodes hc (fun _ h => h) hrun
      refine ⟨he.tree, he.others, fun c' hc' => Or.inr ⟨nodes, ?_, hhas c' hc'⟩⟩
      rw [he.tree]
      exact hnodes
    · cases hrun

theorem seesTo_renderNodes :
    SeesTo renderNodes ctx fun w c => RenderNodesClear ctx.host w.tree c where
  fix := fun hc hrun => (fix_keepRenderNodes hc hrun).2.2
  check := fun {_ w} h => (decides_keepRenderNodes (t := w.tree) (by simp)).run_eq h

theorem others_of_renderNodes (hc : w.stored? c.name = some c)
    (hrun : (renderNodes.run ctx .fix c).run w = .ok () w') :
    (∀ n, n ≠ c.name → w'.stored? n = w.stored? n) ∧
      ∀ c', RenderNodesClear ctx.host w.tree c' → RenderNodesClear ctx.host w'.tree c' := by
  obtain ⟨htree, hothers, -⟩ := fix_keepRenderNodes hc hrun
  refine ⟨hothers, fun c' h => ?_⟩
  rw [htree]
  exact h

/-! ### The graphics driver -/

theorem present_of_keepLoaderConfig (hrun : (keepLoaderConfig ctx .fix c).run w = .ok () w') :
    w'.service = w.service ∧
      ctx.host.isPresent w'.tree (loaderConfigPath ctx.host c.name) = .ok true := by
  obtain ⟨hservice, -, htree⟩ := reshapes_of_keepLoaderConfig hrun
  refine ⟨hservice, ?_⟩
  rcases htree with ⟨heq, hpresent⟩ | ⟨q, hgap, heq⟩
  · rw [heq]
    exact hpresent
  · rw [heq]
    exact Tree.isPresent_eq_true_iff.mpr ⟨q, _, Tree.stat_put_of_gap hgap⟩

/-- The mount outlasts the nodes, since these are only gained, and the configuration
    outlasts them, since they do not touch the tree. -/
theorem driverPartsClear_of_keepDriverParts {driver : Driver} (hc : w.stored? c.name = some c)
    (hrun : (keepDriverParts ctx .fix c driver).run w = .ok () w')
    (hc' : w'.stored? c.name = some c') : DriverPartsClear ctx.host w'.tree driver c' := by
  obtain ⟨_, w₁, hlibraries, hrun⟩ := run_bind_ok.mp hrun
  obtain ⟨_, w₂, hconfig, hnodes⟩ := run_bind_ok.mp hrun
  obtain ⟨ds₁, hds₁, hsets⟩ := (edits_of_keepLibraries hc hlibraries).edited c hc
  obtain ⟨hservice, hpresent⟩ := present_of_keepLoaderConfig hconfig
  have hc₂ : w₂.stored? c.name = some { c with devices := ds₁ } := by
    rw [World.stored?, hservice]
    exact hds₁
  rw [run_keepDriverNodes] at hnodes
  split at hnodes
  · next nodes hlisted =>
    obtain ⟨he, hhas⟩ := edits_of_passNodes hc₂ (fun _ hk => hsets.hasDevice hk) hnodes
    obtain ⟨ds, hds, hgains⟩ := he.edited _ hc₂
    have hsame : c' = { c with devices := ds } := by
      rw [hc'] at hds
      exact Option.some.inj hds
    obtain ⟨-, d, hd, hsource, -⟩ := hsets
    have hall := hhas c' hc'
    rw [he.tree]
    subst hsame
    exact ⟨⟨d, hgains.1 _ d hd, hsource⟩, hpresent, nodes, hlisted, hall⟩
  · cases hnodes

/-- A container has what it needs of the driver that `seeker` knows or finds, and a
    driver that it finds it remembers. -/
structure DriverSettled (host : HostView) (seeker : String) (w : World Store) (c : Container) :
    Prop where
  clear : DriverClear host w.tree (knownDriver host seeker w) c
  remembered : Remembered host seeker w

theorem DriverSettled.of_keepDriver (hc : w.stored? c.name = some c)
    (hrun : (keepDriver seeker ctx .fix c).run w = .ok () w')
    (hc' : w'.stored? c.name = some c') : DriverSettled ctx.host seeker w' c' := by
  rw [run_keepDriver] at hrun
  split at hrun
  · next hversion =>
    split at hrun
    · next driver hknown =>
      have honr : w.Onward (remembering w seeker driver) := onward_remembering hknown
      have hon : (remembering w seeker driver).Onward w' :=
        (goesOnward_keepDriverParts driver).ok hrun
      have hself : w'.drivers.get? seeker = some driver := hon.drivers (Dict.get?_insert_self ..)
      have hknown' : knownDriver ctx.host seeker w' = .ok (some driver) := by
        simp [knownDriver, hself]
      have hversion' := (honr.trans hon).tree.isPresent hversion
      have hparts := driverPartsClear_of_keepDriverParts (w := remembering w seeker driver) hc
        hrun hc'
      refine ⟨Or.inr ⟨hversion', Or.inr ⟨driver, hknown', hparts⟩⟩, fun driver' _ h => ?_⟩
      rw [hknown', Except.ok.injEq, Option.some.injEq] at h
      rw [← h]
      exact hself
    · next hknown =>
      cases hrun
      refine ⟨Or.inr ⟨hversion, Or.inl hknown⟩, fun driver _ h => ?_⟩
      rw [hknown] at h
      cases h
    · cases hrun
  · next hversion =>
    cases hrun
    refine ⟨Or.inl hversion, fun driver h => ?_⟩
    rw [hversion] at h
    cases h
  · cases hrun

theorem DriverSettled.check (h : DriverSettled ctx.host seeker w c) :
    (keepDriver seeker ctx .check c).run w = .ok () w := by
  rw [run_keepDriver]
  rcases h.clear with hversion | ⟨hversion, hknown | ⟨driver, hknown, hparts⟩⟩
  · simp only [hversion]
  · simp only [hversion, hknown]
  · simp only [hversion, hknown]
    rw [remembering_eq_self (h.remembered driver hversion hknown)]
    exact (decides_keepDriverParts (t := w.tree) (by simp) driver).run_eq hparts

theorem seesTo_driver : SeesTo (graphicsDriver seeker) ctx (DriverSettled ctx.host seeker) where
  fix := fun hc hrun _ hc' => .of_keepDriver hc hrun hc'
  check := DriverSettled.check

/-! ### All of them -/

/-- Each repair by itself comes to rest, whatever the host is like.  After a fix of
    the build targets that has succeeded, the check of the targets by the same repair
    passes and a second fix does nothing; this leaves out the graphics driver.  After a
    fix of one container it holds of every repair, whichever drivers are remembered. -/
theorem repairs_rest (ctx : Context) (seeker : String) (w w₁ : World Store)
    (hkeyed : w.service.IsKeyed) :
    (∀ r ∈ [access, resources, renderNodes], (r.onTargets ctx .fix).run w = .ok () w₁ →
      AtRest (r.onTargets ctx .check) (r.onTargets ctx .fix) w₁) ∧
    ∀ r ∈ standard seeker, ∀ name, (r.onContainer ctx .fix name).run w = .ok () w₁ →
      AtRest (r.onContainer ctx .check name) (r.onContainer ctx .fix name) w₁ := by
  have hstandard {r : Repair Store} (hr : r ∈ [access, resources, renderNodes]) :
      r ∈ standard seeker := by
    simp only [List.mem_cons, List.not_mem_nil, or_false] at hr
    rcases hr with rfl | rfl | rfl <;> simp [standard]
  constructor
  · intro r hr hrun
    have hmem := hstandard hr
    simp only [List.mem_cons, List.not_mem_nil, or_false] at hr
    rcases hr with rfl | rfl | rfl
    · exact seesTo_access.onTargets hmem (fun _ hrun => others_of_access hrun) hkeyed hrun
    · exact seesTo_resources.onTargets hmem others_of_resources hkeyed hrun
    · exact seesTo_renderNodes.onTargets hmem others_of_renderNodes hkeyed hrun
  · intro r hr name hrun
    have hmem := hr
    simp only [standard, List.mem_cons, List.not_mem_nil, or_false] at hr
    rcases hr with rfl | rfl | rfl | rfl
    · exact seesTo_access.onContainer hmem hkeyed hrun
    · exact seesTo_resources.onContainer hmem hkeyed hrun
    · exact seesTo_renderNodes.onContainer hmem hkeyed hrun
    · exact seesTo_driver.onContainer hmem hkeyed hrun

/-- Two targets that share a directory, one with a device whose resource is gone, on a
    host with a driver and with a card that is a link to itself. -/
def neglectedFleet : World Store where
  service := .ofContainers
    [plainTarget "a" (.ofList [("home", .make .disk [("source", "/gone")])]), plainTarget "b" .empty]
  tree := .laidOut [.dir "/var/lib/lxd/containers/a/rootfs/etc/ld.so.conf.d" 0o755,
    .dir "/var/lib/lxd/containers/a" 0o700, .link "/var/lib/lxd/containers/b" "a",
    .link "/dev/dri/card0" "card0", .dir "/usr/lib/nvidia-384" 0o755, .file "/dev/nvidia0" 0o660 [],
    .file Driver.versionFile 0o444 (Text.encode "384.111")]

/-- All repairs have something to do there, and come to rest. -/
theorem repairs_rest_neglectedFleet :
    let w := neglectedFleet
    w.service.IsKeyed ∧
      (∀ r ∈ [access, resources, renderNodes],
        let w₁ := stateOf ((r.onTargets {} .fix).run w)
        (r.onTargets {} .fix).run w = .ok () w₁ ∧ w₁.journal ≠ w.journal ∧
          AtRest (r.onTargets {} .check) (r.onTargets {} .fix) w₁) ∧
      ∀ r ∈ standard "s",
        let w₁ := stateOf ((r.onContainer {} .fix "a").run w)
        (r.onContainer {} .fix "a").run w = .ok () w₁ ∧ w₁.journal ≠ w.journal ∧
          AtRest (r.onContainer {} .check "a") (r.onContainer {} .fix "a") w₁ := by
  have hkeyed : neglectedFleet.service.IsKeyed := Store.isKeyed_ofContainers _
  have htargets : ∀ r ∈ [access, resources, renderNodes],
      succeeds ((r.onTargets {} .fix).run neglectedFleet) = true ∧
        (stateOf ((r.onTargets {} .fix).run neglectedFleet)).journal ≠ neglectedFleet.journal := by
    decide +kernel
  have hcontainer : ∀ r ∈ standard "s",
      succeeds ((r.onContainer {} .fix "a").run neglectedFleet) = true ∧
        (stateOf ((r.onContainer {} .fix "a").run neglectedFleet)).journal ≠
          neglectedFleet.journal := by
    decide +kernel
  refine ⟨hkeyed, fun r hr => ?_, fun r hr => ?_⟩
  · obtain ⟨hsucceeds, hjournal⟩ := htargets r hr
    have hrun := eq_ok_of_succeeds hsucceeds
    exact ⟨hrun, hjournal, (repairs_rest {} "s" neglectedFleet _ hkeyed).1 r hr hrun⟩
  · obtain ⟨hsucceeds, hjournal⟩ := hcontainer r hr
    have hrun := eq_ok_of_succeeds hsucceeds
    exact ⟨hrun, hjournal, (repairs_rest {} "s" neglectedFleet _ hkeyed).2 r hr "a" hrun⟩

end Repair

end BuildTargets
