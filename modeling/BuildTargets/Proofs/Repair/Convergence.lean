/-
  BuildTargets/Proofs/Repair/Convergence.lean
  ===========================================
  **One fix is enough.**

  A fix of all build targets that succeeds leaves every target clear, so a check
  after it passes and a second fix does nothing (`fix_converges`).  Each repair
  establishes what it stands for, and the invariant of the later ones is that
  they keep it: a container has gained nothing but nodes of the host and the
  mount of the libraries, and the tree has grown by loader configurations only.

  This needs a host that is `Settled`: the nodes that are passed into containers
  are not links to nothing, no loader configuration is a link, and creating one
  does not put anything where the directory of the render nodes was looked for.
-/
import BuildTargets.Proofs.Repair.Agreement
import BuildTargets.Proofs.Repair.Edits
import BuildTargets.Proofs.Tree.Proper

namespace BuildTargets.Repair

open BuildTargets.Tree (Grows AddsOnly)

variable {host : HostView} {t t' : Tree} {c c' : Container}

/-! ### What growth keeps clear -/

theorem dirPath_grows (hg : Grows accessibleMode t t') {container : String} {path : RawText}
    (h : dirPath host t container = .ok path) : dirPath host t' container = .ok path := by
  rw [dirPath_eq_ok_iff] at h ⊢
  obtain ⟨q, n, hlink, h⟩ := h
  obtain ⟨n', hlink', hn'⟩ := hg.linkStat hlink
  refine ⟨q, n', hlink', ?_⟩
  rcases hn' with rfl | ⟨hdir, rfl⟩
  · exact h.imp (fun ⟨htarget, hreal⟩ => ⟨htarget, hg.realPath hreal⟩) id
  · rcases h with ⟨⟨target, rfl⟩, -⟩ | ⟨-, hpath⟩
    · cases hdir
    · exact Or.inr ⟨fun _ heq => (nomatch heq), hpath⟩

theorem AccessClear.grows (h : AccessClear host t c) (hg : Grows accessibleMode t t') :
    AccessClear host t' c := by
  obtain ⟨path, haccess⟩ := h
  obtain ⟨hd, p, m, hstat, hbits⟩ := accessOf_eq_ok_iff.mp haccess
  have hd' := dirPath_grows hg hd
  obtain ⟨n', hstat', hn'⟩ := hg.stat hstat
  rcases hn' with rfl | ⟨-, rfl⟩
  · exact ⟨path, accessOf_eq_ok_iff.mpr ⟨hd', p, m, hstat', hbits⟩⟩
  · exact ⟨path, accessOf_eq_ok_iff.mpr ⟨hd', p, _, hstat', rfl⟩⟩

theorem accessClear_setMode {path : RawText} {p : Place} {m : Nat}
    (haccess : accessOf host t c.name = .ok (path, permissionBits m))
    (hstat : t.stat path = .ok (p, .dir m)) : AccessClear host (t.setMode p accessibleMode) c := by
  have hp := Tree.node?_of_stat hstat
  have hg : Grows accessibleMode t (t.setMode p accessibleMode) := Tree.grows_setMode hp
  obtain ⟨n', hstat', -⟩ := hg.stat hstat
  have hn' := Tree.node?_of_stat hstat'
  rw [Tree.node?_setMode, if_pos rfl, hp] at hn'
  cases hn'
  have hd := dirPath_grows hg (accessOf_eq_ok_iff.mp haccess).1
  exact ⟨path, accessOf_eq_ok_iff.mpr ⟨hd, p, _, hstat', rfl⟩⟩

theorem ResourcesClear.grows (h : ResourcesClear host t c) (hg : Grows accessibleMode t t') :
    ResourcesClear host t' c :=
  fun name device hd path hpath => hg.isPresent (h name device hd path hpath)

/-! ### The one name that is added -/

/-- The name of the loader configuration in its directory. -/
def loaderConfigName : String := "01-nvidia.conf"

theorem lastField_loaderConfigPath (host : HostView) (container : String) :
    Path.lastField (host.path (loaderConfigPath host container)) =
      some loaderConfigName.toList := by
  have hconfig : Path.lastField loaderConfig = some loaderConfigName.toList := by decide +kernel
  have hlogical : Path.lastField (loaderConfigPath host container) =
      some loaderConfigName.toList := by
    rw [loaderConfigPath, Path.lastField_join, hconfig]
  have hfiller : Path.isFiller loaderConfigName.toList = false := by decide
  rw [HostView.path, Path.lastField_join]
  exact Path.lastField_belowRoot hlogical hfiller

theorem addsOnly_of_gap {q : Place} {container : String} {k : Nat} {content : List UInt8}
    (hgap : t.walk false (host.path (loaderConfigPath host container)) = .ok (.gap q false))
    (hlink : ∀ p target,
      t.linkStat (host.path (loaderConfigPath host container)) ≠ .ok (p, .link target)) :
    AddsOnly loaderConfigName t (t.put q (.file k content)) := by
  have hne : loaderConfigName.toList ≠ [] := by decide
  have hq := Tree.getLast?_of_gap (lastField_loaderConfigPath host container) hne hgap hlink
  rw [String.ofList_toList] at hq
  exact Tree.addsOnly_put hq _

theorem isRenderNode_loaderConfigName : isRenderNode loaderConfigName = false := by decide

theorem isDriverNode_loaderConfigName : isDriverNode loaderConfigName = false := by decide

theorem NodesClear.grows {dir : String} {isWanted : String → Bool}
    (h : NodesClear host t dir isWanted c) (hg : Grows accessibleMode t t')
    (ha : AddsOnly loaderConfigName t t') (hwanted : isWanted loaderConfigName = false)
    (hlisted : ∃ nodes, host.nodes t' dir isWanted = .ok nodes)
    (hle : ∀ k, c.hasDevice k = true → c'.hasDevice k = true) :
    NodesClear host t' dir isWanted c' := by
  obtain ⟨nodes, hnodes, hhas⟩ := h
  obtain ⟨nodes', hnodes'⟩ := hlisted
  refine ⟨nodes', hnodes', fun node hnode => ?_⟩
  exact hle node (hhas node ((hg.mem_nodes_iff ha hwanted hnodes hnodes').mp hnode))

/-! ### A repair on all build targets -/

/-- What a successful fix of one container has to come to, for the fix of all of
    them: it keeps `J`, takes its container from `Pre` to `Post`, and leaves the
    other containers, with what they have of both. -/
structure FixStep (J : World Store → Prop) (Pre Post : World Store → Container → Prop)
    (n : String) (w w' : World Store) : Prop where
  keeps : J w'
  done : ∀ c, w'.stored? n = some c → Post w' c
  others : ∀ n', n' ≠ n → w'.stored? n' = w.stored? n'
  pre : ∀ c, c.name ≠ n → Pre w c → Pre w' c
  post : ∀ c, c.name ≠ n → Post w c → Post w' c

variable {ctx : Context} {seeker : String} {r : Repair Store} {w w' : World Store}
  {J : World Store → Prop} {Pre Post : World Store → Container → Prop}

/-- A fix that does nothing is a step if there is nothing to do. -/
theorem FixStep.idle (hJ : J w) (hc : w.stored? c.name = some c) (hpost : Post w c) :
    FixStep J Pre Post c.name w w where
  keeps := hJ
  done := by
    intro c' hc'
    rw [hc, Option.some.injEq] at hc'
    rw [← hc']
    exact hpost
  others := fun _ _ => rfl
  pre := fun _ _ h => h
  post := fun _ _ h => h

theorem onTargets_fix_ok (hr : r ∈ standard seeker)
    (hstep : ∀ c w w', J w → w.stored? c.name = some c → c.isTarget = true → Pre w c →
      (r.run ctx .fix c).run w = .ok () w' → FixStep J Pre Post c.name w w')
    (hkeyed : w.service.IsKeyed) (hJ : J w) (hpre : ∀ c ∈ targetsOf w.service, Pre w c)
    (hrun : (r.onTargets ctx .fix).run w = .ok () w') :
    J w' ∧ w.Onward w' ∧ ∀ c ∈ targetsOf w'.service, Post w' c := by
  rw [run_onTargets] at hrun
  split at hrun
  · cases hrun
  -- what is left to do is as it was, and the rest is done
  let I (rest : List Container) (w₁ : World Store) : Prop :=
    J w₁ ∧ w.Onward w₁ ∧ rest.Nodup ∧ (∀ c ∈ rest, c ∈ targetsOf w.service) ∧
    (∀ c ∈ rest, w₁.stored? c.name = some c ∧ Pre w₁ c) ∧
    ∀ c ∈ targetsOf w.service, c ∈ rest ∨ ∀ c', w₁.stored? c.name = some c' → Post w₁ c'
  have hI (a : Container) (rest : List Container) (w₁ w₂ : World Store) (hI : I (a :: rest) w₁)
      (hrun : (r.run ctx .fix a).run w₁ = .ok () w₂) : I rest w₂ := by
    obtain ⟨hJ₁, hon, hnodup, hsub, htodo, hdone⟩ := hI
    obtain ⟨ha, hrest⟩ := List.nodup_cons.mp hnodup
    have hatarget := hsub a List.mem_cons_self
    obtain ⟨hastored, hapre⟩ := htodo a List.mem_cons_self
    have hfix := hstep a w₁ w₂ hJ₁ hastored (mem_targetsOf_iff.mp hatarget).2 hapre hrun
    have hon' : w₁.Onward w₂ := (goesOnward_run hr).ok hrun
    have hname (c : Container) (hc : c ∈ targetsOf w.service) (hne : c ≠ a) :
        c.name ≠ a.name := by
      intro heq
      have h₁ := get?_of_mem_targets hkeyed hc
      rw [heq, get?_of_mem_targets hkeyed hatarget, Option.some.injEq] at h₁
      exact hne h₁.symm
    refine ⟨hfix.keeps, hon.trans hon', hrest,
      fun c hc => hsub c (List.mem_cons_of_mem _ hc), fun c hc => ?_, fun c hc => ?_⟩
    · have hne : c ≠ a := by
        rintro rfl
        exact ha hc
      have hname' := hname c (hsub c (List.mem_cons_of_mem _ hc)) hne
      obtain ⟨hstored, hcpre⟩ := htodo c (List.mem_cons_of_mem _ hc)
      exact ⟨(hfix.others _ hname').trans hstored, hfix.pre c hname' hcpre⟩
    · by_cases hca : c = a
      · rw [hca]
        exact Or.inr hfix.done
      · have hname' := hname c hc hca
        rcases hdone c hc with hmem | hpost
        · rcases List.mem_cons.mp hmem with heq | hrest
          · exact absurd heq hca
          · exact Or.inl hrest
        · refine Or.inr fun c' hc' => ?_
          rw [hfix.others _ hname'] at hc'
          have hc'name : c'.name = c.name := hon.keyed hkeyed _ _ hc'
          exact hfix.post c' (by rw [hc'name]; exact hname') (hpost c' hc')
  have hstart : I (targetsOf w.service) w :=
    ⟨hJ, .refl w, nodup_targetsOf hkeyed, fun _ h => h,
      fun c hc => ⟨get?_of_mem_targets hkeyed hc, hpre c hc⟩, fun _ h => Or.inl h⟩
  obtain ⟨hJ', hon, -, -, -, hdone⟩ := run_forM_ok hI hstart hrun
  refine ⟨hJ', hon, fun c hc => ?_⟩
  have hstored := get?_of_mem_targets (hon.keyed hkeyed) hc
  obtain ⟨c₀, devices, hc₀, rfl⟩ := hon.stored_back hstored
  have htarget₀ : c₀ ∈ targetsOf w.service :=
    mem_targetsOf_iff.mpr ⟨⟨_, hc₀⟩, (mem_targetsOf_iff.mp hc).2⟩
  rcases hdone c₀ htarget₀ with hmem | hpost
  · cases hmem
  · exact hpost _ hstored

/-! ### Settled hosts, and what a fix does to them -/

/-- A host on which no node that is passed into containers is a link to nothing,
    and no loader configuration of a target is a link. -/
structure Tidy (host : HostView) (s : Store) (t : Tree) : Prop where
  renderNodes : ∀ nodes, host.nodes t renderNodeDir isRenderNode = .ok nodes →
    ∀ node ∈ nodes, host.isPresent t node = .ok true
  driverNodes : ∀ nodes, host.nodes t driverNodeDir isDriverNode = .ok nodes →
    ∀ node ∈ nodes, host.isPresent t node = .ok true
  noLink : ∀ c ∈ targetsOf s, ∀ p target,
    t.linkStat (host.path (loaderConfigPath host c.name)) ≠ .ok (p, .link target)

/-- Tidiness can be looked up: in two listings, and at the configurations, where
    there are none yet. -/
theorem Tidy.of_listings {s : Store} {nodes nodes' : List String}
    (hrender : host.nodes t renderNodeDir isRenderNode = .ok nodes)
    (hdriver : host.nodes t driverNodeDir isDriverNode = .ok nodes')
    (hpresent : ∀ node ∈ nodes ++ nodes', host.isPresent t node = .ok true)
    (hconfig : ∀ c ∈ targetsOf s,
      t.linkStat (host.path (loaderConfigPath host c.name)) = .error .notFound) :
    Tidy host s t := by
  refine ⟨fun nodes₁ h node hnode => ?_, fun nodes₁ h node hnode => ?_, fun c hc p target => ?_⟩
  · rw [hrender] at h
    cases h
    exact hpresent node (List.mem_append_left _ hnode)
  · rw [hdriver] at h
    cases h
    exact hpresent node (List.mem_append_right _ hnode)
  · rw [hconfig c hc]
    exact fun h => nomatch h

/-- A tidy host on which one fix of the build targets of a store is enough. -/
structure Settled (host : HostView) (s : Store) (t : Tree) : Prop extends Tidy host s t where
  /-- An absent directory of the render nodes is still absent when the loader
      configuration of a target has been created. -/
  apart : host.confined = false → t.stat (host.path renderNodeDir) = .error .notFound →
    ∀ c ∈ targetsOf s, ∀ q,
      t.walk false (host.path (loaderConfigPath host c.name)) = .ok (.gap q false) →
      (t.put q (.file loaderConfigMode (Text.encode loaderConfigText))).stat
        (host.path renderNodeDir) = .error .notFound

/-- What holds all along a fix that began on `w₀`. -/
structure Course (host : HostView) (seeker : String) (w₀ w : World Store) : Prop where
  onward : w₀.Onward w
  adds : AddsOnly loaderConfigName w₀.tree w.tree
  absent : host.confined = false →
    w₀.tree.stat (host.path renderNodeDir) = .error .notFound →
    w.tree.stat (host.path renderNodeDir) = .error .notFound
  libraries : ∀ driver, w.drivers.get? seeker = some driver →
    host.isPresent w.tree driver.libraries = .ok true

namespace Course

variable {w₀ : World Store}

theorem start (hfresh : w₀.drivers.get? seeker = none) : Course host seeker w₀ w₀ where
  onward := .refl w₀
  adds := .refl _ _
  absent := fun _ h => h
  libraries := by
    intro driver hd
    rw [hfresh] at hd
    cases hd

/-- A course goes on through whatever leaves the tree and the drivers. -/
theorem same (h : Course host seeker w₀ w) (hon : w.Onward w') (htree : w'.tree = w.tree)
    (hdrivers : w'.drivers = w.drivers) : Course host seeker w₀ w' where
  onward := h.onward.trans hon
  adds := by
    rw [htree]
    exact h.adds
  absent := by
    rw [htree]
    exact h.absent
  libraries := by
    rw [htree, hdrivers]
    exact h.libraries

/-- A node that is listed on the way was listed, and leads somewhere, if it did
    at the beginning. -/
theorem listed_present (h : Course host seeker w₀ w) {dir : String} {isWanted : String → Bool}
    (hwanted : isWanted loaderConfigName = false)
    (hpresent : ∀ nodes, host.nodes w₀.tree dir isWanted = .ok nodes →
      ∀ node ∈ nodes, host.isPresent w₀.tree node = .ok true)
    {nodes : List String} (hnodes : host.nodes w.tree dir isWanted = .ok nodes) {node : String}
    (hnode : node ∈ nodes) : host.isPresent w.tree node = .ok true := by
  obtain ⟨nodes₀, hnodes₀, hnode₀⟩ := h.onward.tree.nodes_back h.adds hwanted hnodes hnode
  exact h.onward.tree.isPresent (hpresent nodes₀ hnodes₀ node hnode₀)

end Course

/-! ### The four repairs -/

section

variable {w₀ : World Store}

theorem fixStep_access (hJ : Course ctx.host seeker w₀ w) (hc : w.stored? c.name = some c)
    (hrun : (keepAccess ctx .fix c).run w = .ok () w') :
    FixStep (Course ctx.host seeker w₀) (fun _ _ => True)
      (fun w c => AccessClear ctx.host w.tree c) c.name w w' := by
  have hon : w.Onward w' := goesOnward_keepAccess.ok hrun
  obtain ⟨hservice, hdrivers, htree⟩ := reshapes_of_keepAccess hrun
  have hstored (n : String) : w'.stored? n = w.stored? n := by
    rw [World.stored?, World.stored?, hservice]
  have hclear : AccessClear ctx.host w'.tree c := by
    rcases htree with ⟨heq, hclear⟩ | ⟨path, p, m, haccess, hstat, heq⟩
    · rw [heq]
      exact hclear
    · rw [heq]
      exact accessClear_setMode haccess hstat
  have hadds : AddsOnly loaderConfigName w.tree w'.tree ∧
      ∀ p, w.tree.node? p = none → w'.tree.node? p = none := by
    rcases htree with ⟨heq, -⟩ | ⟨path, p, m, -, -, heq⟩
    · rw [heq]
      exact ⟨.refl _ _, fun _ h => h⟩
    · rw [heq]
      refine ⟨Tree.addsOnly_setMode _ _ _, fun q hq => ?_⟩
      rw [Tree.node?_setMode, hq]
      split <;> rfl
  refine ⟨⟨hJ.onward.trans hon, hJ.adds.trans hadds.1, fun hconf h => ?_, fun driver hd => ?_⟩,
    fun c' hc' => ?_, fun n _ => hstored n, fun _ _ _ => trivial, fun c' _ h => h.grows hon.tree⟩
  · exact Tree.absent_of_no_new hon.tree hadds.2 (hJ.absent hconf h)
  · rw [hdrivers] at hd
    exact hon.tree.isPresent (hJ.libraries driver hd)
  · rw [hstored, hc, Option.some.injEq] at hc'
    rw [← hc']
    exact hclear

/-- What the first two repairs see to. -/
structure Supplied (host : HostView) (t : Tree) (c : Container) : Prop where
  access : AccessClear host t c
  resources : ResourcesClear host t c

theorem Supplied.grows (h : Supplied host t c) (hg : Grows accessibleMode t t') :
    Supplied host t' c :=
  ⟨h.access.grows hg, h.resources.grows hg⟩

theorem fixStep_resources (hJ : Course ctx.host seeker w₀ w) (hc : w.stored? c.name = some c)
    (hpre : AccessClear ctx.host w.tree c)
    (hrun : (keepResources ctx .fix c).run w = .ok () w') :
    FixStep (Course ctx.host seeker w₀) (fun w c => AccessClear ctx.host w.tree c)
      (fun w c => Supplied ctx.host w.tree c) c.name w w' := by
  have hon : w.Onward w' :=
    (GoesOnward.forM fun e _ => goesOnward_keepResource e.1 e.2).ok hrun
  obtain ⟨he, -⟩ := edits_of_keepResources hc hrun
  refine ⟨hJ.same hon he.tree he.drivers, fun c' hc' => ⟨?_, ?_⟩, he.others,
    fun c' _ h => h.grows hon.tree, fun c' _ h => h.grows hon.tree⟩
  · obtain ⟨devices, hdevices, -⟩ := he.edited c hc
    rw [hc', Option.some.injEq] at hdevices
    rw [hdevices]
    exact hpre.grows hon.tree
  · exact resourcesClear_of_keepResources hc hrun hc'

theorem ResourcesClear.gains {nodes : List String} {devices : Dict String Device}
    (h : ResourcesClear host t c) (hg : Gains (PassesOneOf nodes) c.devices devices)
    (hclaims : ∀ node ∈ nodes, (Device.passThrough node).hostPath? = some node)
    (hpresent : ∀ node ∈ nodes, host.isPresent t node = .ok true) :
    ResourcesClear host t { c with devices := devices } := by
  intro name device hd path hpath
  rcases hg.2 name device hd with hold | ⟨hnode, rfl⟩
  · exact h name device hold path hpath
  · rw [hclaims name hnode, Option.some.injEq] at hpath
    rw [← hpath]
    exact hpresent name hnode

/-- What the repairs before the last one see to. -/
structure Equipped (host : HostView) (t : Tree) (c : Container) : Prop
    extends Supplied host t c where
  renderNodes : RenderNodesClear host t c

theorem fixStep_renderNodes (hset : Settled ctx.host w₀.service w₀.tree)
    (hJ : Course ctx.host seeker w₀ w) (hc : w.stored? c.name = some c)
    (hpre : Supplied ctx.host w.tree c) (hrun : (keepRenderNodes ctx .fix c).run w = .ok () w') :
    FixStep (Course ctx.host seeker w₀) (fun w c => Supplied ctx.host w.tree c)
      (fun w c => Equipped ctx.host w.tree c) c.name w w' := by
  have hon : w.Onward w' := goesOnward_keepRenderNodes.ok hrun
  rw [run_keepRenderNodes] at hrun
  split at hrun
  · next hconfined =>
    cases hrun
    exact .idle hJ hc ⟨hpre, Or.inl hconfined⟩
  · cases hnodes : ctx.host.nodes w.tree renderNodeDir isRenderNode with
    | error e =>
      rw [hnodes] at hrun
      cases hrun
    | ok nodes =>
      rw [hnodes] at hrun
      obtain ⟨he, hhas⟩ := edits_of_passNodes hc (fun _ h => h) hrun
      have htree : w'.tree = w.tree := he.tree
      refine ⟨hJ.same hon htree he.drivers, fun c' hc' => ?_, he.others,
        fun c' _ h => h.grows hon.tree, fun c' _ h => ?_⟩
      · obtain ⟨devices, hdevices, hgains⟩ := he.edited c hc
        rw [hc', Option.some.injEq] at hdevices
        have hall := hhas c' hc'
        subst hdevices
        rw [htree]
        refine ⟨⟨hpre.access, hpre.resources.gains hgains ?_ ?_⟩, Or.inr ⟨nodes, hnodes, hall⟩⟩
        · intro node hnode
          exact hostPath?_passThrough_of_listed "ev/dri".toList (by decide) hnodes hnode
        · intro node hnode
          exact hJ.listed_present isRenderNode_loaderConfigName hset.renderNodes hnodes hnode
      · rw [htree]
        exact h

/-- A container that is a target on the way was one at the beginning. -/
theorem Course.target (hJ : Course host seeker w₀ w) (hc : w.stored? c.name = some c)
    (htarget : c.isTarget = true) : ∃ c₀ ∈ targetsOf w₀.service, c₀.name = c.name := by
  obtain ⟨c₀, devices, hc₀, heq⟩ := hJ.onward.stored_back hc
  subst heq
  exact ⟨c₀, mem_targetsOf_iff.mpr ⟨⟨_, hc₀⟩, htarget⟩, rfl⟩

/-- The course goes on through the creation of a loader configuration. -/
theorem Course.keepLoaderConfig (hset : Settled ctx.host w₀.service w₀.tree)
    (hJ : Course ctx.host seeker w₀ w) (hname : ∃ c₀ ∈ targetsOf w₀.service, c₀.name = c.name)
    (hrun : (keepLoaderConfig ctx .fix c).run w = .ok () w') :
    Course ctx.host seeker w₀ w' ∧ AddsOnly loaderConfigName w.tree w'.tree ∧
      ctx.host.isPresent w'.tree (loaderConfigPath ctx.host c.name) = .ok true ∧
      w'.service = w.service ∧ w'.drivers = w.drivers := by
  have hon : w.Onward w' := goesOnward_keepLoaderConfig.ok hrun
  obtain ⟨hservice, hdrivers, htree⟩ := reshapes_of_keepLoaderConfig hrun
  obtain ⟨c₀, hc₀, hname⟩ := hname
  rcases htree with ⟨heq, hpresent⟩ | ⟨q, hgap, heq⟩
  · refine ⟨hJ.same hon heq hdrivers, ?_, ?_, hservice, hdrivers⟩
    · rw [heq]
      exact .refl _ _
    · rw [heq]
      exact hpresent
  · have hadds : AddsOnly loaderConfigName w.tree w'.tree := by
      rw [heq]
      refine addsOnly_of_gap hgap fun p target hlink => ?_
      have hlink₀ := hJ.onward.tree.linkStat_link_back hlink
      rw [← hname] at hlink₀
      exact hset.noLink c₀ hc₀ p target hlink₀
    refine ⟨⟨hJ.onward.trans hon, hJ.adds.trans hadds, fun hconfined h => ?_, fun d hd => ?_⟩,
      hadds, ?_, hservice, hdrivers⟩
    · rw [heq]
      have hgap₀ := hJ.onward.tree.gap_back hgap
      rw [← hname] at hgap₀
      exact Tree.absent_of_put hJ.onward.tree hgap (hJ.absent hconfined h)
        (hset.apart hconfined h c₀ hc₀ q hgap₀)
    · rw [hdrivers] at hd
      exact hon.tree.isPresent (hJ.libraries d hd)
    · rw [heq]
      exact Tree.isPresent_eq_true_iff.mpr ⟨q, _, Tree.stat_put_of_gap hgap⟩

theorem ResourcesClear.setsLibraries {driver : Driver} {devices : Dict String Device}
    (h : ResourcesClear host t c) (hset : SetsLibraries driver c.devices devices)
    (hpresent : host.isPresent t driver.libraries = .ok true) :
    ResourcesClear host t { c with devices := devices } := by
  intro name device hd path hpath
  by_cases hname : name = libraryDevice
  · subst hname
    obtain ⟨-, d, hd', -, hold | rfl⟩ := hset
    · rw [hd, Option.some.injEq] at hd'
      subst hd'
      exact h libraryDevice device hold path hpath
    · rw [hd, Option.some.injEq] at hd'
      subst hd'
      rw [hostPath?_libraryMountOf, Option.filter_eq_some_iff, Option.some.injEq] at hpath
      rw [← hpath.1]
      exact hpresent
  · rw [hset.1 name hname] at hd
    exact h name device hd path hpath

theorem SetsLibraries.hasDevice {driver : Driver} {ds ds' : Dict String Device}
    (h : SetsLibraries driver ds ds') {k : String} (hk : ds.contains k = true) :
    ds'.contains k = true := by
  by_cases hname : k = libraryDevice
  · obtain ⟨-, d, hd, -⟩ := h
    rw [hname]
    exact Option.isSome_of_eq_some hd
  · rw [Dict.contains, h.1 k hname]
    exact hk

/-- What the parts of the last repair come to for their container. -/
theorem fix_keepDriverParts {driver : Driver} (hset : Settled ctx.host w₀.service w₀.tree)
    (hJ : Course ctx.host seeker w₀ w) (hknown : w.drivers.get? seeker = some driver)
    (hc : w.stored? c.name = some c) (htarget : c.isTarget = true)
    (hresources : ResourcesClear ctx.host w.tree c)
    (hrun : (keepDriverParts ctx .fix c driver).run w = .ok () w') :
    Course ctx.host seeker w₀ w' ∧ AddsOnly loaderConfigName w.tree w'.tree ∧
      w'.drivers = w.drivers ∧ (∀ n, n ≠ c.name → w'.stored? n = w.stored? n) ∧
      ∃ devices, w'.stored? c.name = some { c with devices := devices } ∧
        (∀ k, c.hasDevice k = true → devices.contains k = true) ∧
        ResourcesClear ctx.host w'.tree { c with devices := devices } ∧
        DriverPartsClear ctx.host w'.tree driver { c with devices := devices } := by
  obtain ⟨_, w₁, hrun₁, hrun'⟩ := run_bind_ok.mp hrun
  obtain ⟨_, w₂, hrun₂, hrun₃⟩ := run_bind_ok.mp hrun'
  -- the mount of the libraries
  have hon₁ : w.Onward w₁ := (goesOnward_keepLibraries driver).ok hrun₁
  have he₁ := edits_of_keepLibraries hc hrun₁
  have hJ₁ := hJ.same hon₁ he₁.tree he₁.drivers
  obtain ⟨ds₁, hds₁, hsets⟩ := he₁.edited c hc
  -- the loader configuration
  obtain ⟨hJ₂, hadds₂, hconfig, hservice₂, hdrivers₂⟩ :=
    hJ₁.keepLoaderConfig hset (hJ.target hc htarget) hrun₂
  have hon₂ : w₁.Onward w₂ := goesOnward_keepLoaderConfig.ok hrun₂
  have hstored₂ (n : String) : w₂.stored? n = w₁.stored? n := by
    rw [World.stored?, World.stored?, hservice₂]
  -- the nodes
  have hon₃ : w₂.Onward w' := goesOnward_keepDriverNodes.ok hrun₃
  rw [run_keepDriverNodes] at hrun₃
  cases hnodes : ctx.host.nodes w₂.tree driverNodeDir isDriverNode with
  | error e =>
    rw [hnodes] at hrun₃
    cases hrun₃
  | ok nodes =>
    rw [hnodes] at hrun₃
    have hc₂ : w₂.stored? c.name = some { c with devices := ds₁ } := (hstored₂ c.name).trans hds₁
    obtain ⟨he₃, hhas⟩ := edits_of_passNodes hc₂ (fun k hk => hsets.hasDevice hk) hrun₃
    obtain ⟨ds, hds, hgains⟩ := he₃.edited _ hc₂
    have htree : w'.tree = w₂.tree := he₃.tree
    refine ⟨hJ₂.same hon₃ htree he₃.drivers, ?_, ?_, fun n hn => ?_, ds, hds, fun k hk => ?_,
      ?_, ?_⟩
    · rw [htree, ← he₁.tree]
      exact hadds₂
    · rw [he₃.drivers, hdrivers₂, he₁.drivers]
    · rw [he₃.others n hn, hstored₂, he₁.others n hn]
    · exact Gains.hasDevice hgains (hsets.hasDevice hk)
    · rw [htree]
      have hclear₁ := hresources.setsLibraries hsets (hJ.libraries driver hknown)
      rw [← he₁.tree] at hclear₁
      refine (hclear₁.grows hon₂.tree).gains hgains (fun node hnode => ?_) fun node hnode => ?_
      · exact hostPath?_passThrough_of_listed "ev".toList (by decide) hnodes hnode
      · exact hJ₂.listed_present isDriverNode_loaderConfigName hset.driverNodes hnodes hnode
    · obtain ⟨-, d, hd, hsource, -⟩ := hsets
      rw [htree]
      exact ⟨⟨d, hgains.1 _ d hd, hsource⟩, hconfig, nodes, hnodes, hhas _ hds⟩

theorem Course.renderNodes (hJ : Course host seeker w₀ w) (hJ' : Course host seeker w₀ w')
    (hg : Grows accessibleMode w.tree w'.tree) (ha : AddsOnly loaderConfigName w.tree w'.tree)
    (hle : ∀ k, c.hasDevice k = true → c'.hasDevice k = true)
    (h : RenderNodesClear host w.tree c) : RenderNodesClear host w'.tree c' := by
  by_cases hconfined : host.confined = true
  · exact Or.inl hconfined
  · rcases h with h | h
    · exact absurd h hconfined
    · obtain ⟨nodes, hnodes, -⟩ := id h
      have hopen : host.confined = false := by simpa using hconfined
      have hlisted := hg.nodes_ok hnodes fun habsent =>
        hJ'.absent hopen (hJ.onward.tree.absent_back habsent)
      exact Or.inr (h.grows hg ha isRenderNode_loaderConfigName hlisted hle)

/-- A container keeps its equipment along the course, whatever it gains. -/
theorem Course.equipped (hJ : Course host seeker w₀ w) (hJ' : Course host seeker w₀ w')
    (hg : Grows accessibleMode w.tree w'.tree) (ha : AddsOnly loaderConfigName w.tree w'.tree)
    (h : Equipped host w.tree c) : Equipped host w'.tree c :=
  ⟨h.toSupplied.grows hg, hJ.renderNodes hJ' hg ha (fun _ hk => hk) h.renderNodes⟩

/-- The driver that a check would use is remembered. -/
def Remembered (host : HostView) (seeker : String) (w : World Store) : Prop :=
  ∀ driver, host.isPresent w.tree Driver.versionFile = .ok true →
    knownDriver host seeker w = .ok (some driver) → w.drivers.get? seeker = some driver

/-- What all repairs together see to. -/
structure Finished (host : HostView) (seeker : String) (w : World Store) (c : Container) :
    Prop where
  clear : Clear host w.tree (knownDriver host seeker w) c
  remembered : Remembered host seeker w

theorem Equipped.finished (h : Equipped host w.tree c)
    (hdriver : DriverClear host w.tree (knownDriver host seeker w) c)
    (hremembered : Remembered host seeker w) : Finished host seeker w c :=
  ⟨⟨h.access, h.resources, h.renderNodes, hdriver⟩, hremembered⟩

theorem Finished.equipped (h : Finished host seeker w c) : Equipped host w.tree c :=
  ⟨⟨h.clear.access, h.clear.resources⟩, h.clear.renderNodes⟩

theorem Course.libraries_known (hJ : Course host seeker w₀ w) {driver : Driver}
    (h : knownDriver host seeker w = .ok (some driver)) :
    host.isPresent w.tree driver.libraries = .ok true := by
  unfold knownDriver at h
  cases hd : w.drivers.get? seeker with
  | some driver' =>
    rw [hd] at h
    cases h
    exact hJ.libraries driver hd
  | none =>
    rw [hd] at h
    exact libraries_of_find? h

theorem Course.remembering (hJ : Course host seeker w₀ w) {driver : Driver}
    (h : knownDriver host seeker w = .ok (some driver))
    (hon : w.Onward (remembering w seeker driver)) :
    Course host seeker w₀ (remembering w seeker driver) := by
  refine ⟨hJ.onward.trans hon, hJ.adds, hJ.absent, fun driver' hd => ?_⟩
  have hself : (Repair.remembering w seeker driver).drivers.get? seeker = some driver :=
    Dict.get?_insert_self ..
  rw [hself, Option.some.injEq] at hd
  rw [← hd]
  exact hJ.libraries_known h

theorem fixStep_driverParts {driver : Driver} (hset : Settled ctx.host w₀.service w₀.tree)
    (hJ : Course ctx.host seeker w₀ w) (hc : w.stored? c.name = some c)
    (htarget : c.isTarget = true) (hpre : Equipped ctx.host w.tree c)
    (hpresent : ctx.host.isPresent w.tree Driver.versionFile = .ok true)
    (hknown : knownDriver ctx.host seeker w = .ok (some driver))
    (hrun : (keepDriverParts ctx .fix c driver).run (remembering w seeker driver) = .ok () w') :
    FixStep (Course ctx.host seeker w₀) (fun w c => Equipped ctx.host w.tree c)
      (Finished ctx.host seeker) c.name w w' := by
  have hself : (remembering w seeker driver).drivers.get? seeker = some driver :=
    Dict.get?_insert_self ..
  have honr := onward_remembering hknown
  have hon : w.Onward w' := honr.trans ((goesOnward_keepDriverParts driver).ok hrun)
  obtain ⟨hJ', hadds, hdrivers, hothers, devices, hdevices, hle, hresources, hparts⟩ :=
    fix_keepDriverParts hset (hJ.remembering hknown honr) hself hc htarget hpre.resources hrun
  -- from now on the driver is remembered
  have hversion := hon.tree.isPresent hpresent
  have hself' : w'.drivers.get? seeker = some driver := by rw [hdrivers, hself]
  have hknown' : knownDriver ctx.host seeker w' = .ok (some driver) := by
    rw [knownDriver, hself']
  have hremembered : Remembered ctx.host seeker w' := by
    intro driver' _ h
    rw [hknown', Except.ok.injEq, Option.some.injEq] at h
    rw [← h, hself']
  refine ⟨hJ', fun c' hc' => ?_, hothers, fun c' _ h => hJ.equipped hJ' hon.tree hadds h,
    fun c' _ h => ?_⟩
  · rw [hdevices, Option.some.injEq] at hc'
    rw [← hc']
    have hequipped : Equipped ctx.host w'.tree { c with devices := devices } :=
      ⟨⟨hpre.access.grows hon.tree, hresources⟩,
        hJ.renderNodes hJ' hon.tree hadds hle hpre.renderNodes⟩
    refine hequipped.finished ?_ hremembered
    exact Or.inr ⟨hversion, Or.inr ⟨driver, hknown', hparts⟩⟩
  · refine (hJ.equipped hJ' hon.tree hadds h.equipped).finished ?_ hremembered
    refine Or.inr ⟨hversion, Or.inr ⟨driver, hknown', ?_⟩⟩
    rcases h.clear.driver with hd | ⟨-, hd | ⟨driver', hd, hlibraries, hconfig, hnodes⟩⟩
    · rw [hpresent] at hd
      cases hd
    · rw [hknown] at hd
      cases hd
    · rw [hknown] at hd
      cases hd
      obtain ⟨nodes, hlisted, -⟩ := hparts.nodes
      exact ⟨hlibraries, hon.tree.isPresent hconfig,
        hnodes.grows hon.tree hadds isDriverNode_loaderConfigName ⟨nodes, hlisted⟩ fun _ hk => hk⟩

theorem fixStep_driver (hset : Settled ctx.host w₀.service w₀.tree)
    (hJ : Course ctx.host seeker w₀ w) (hc : w.stored? c.name = some c)
    (htarget : c.isTarget = true) (hpre : Equipped ctx.host w.tree c)
    (hrun : (keepDriver seeker ctx .fix c).run w = .ok () w') :
    FixStep (Course ctx.host seeker w₀) (fun w c => Equipped ctx.host w.tree c)
      (Finished ctx.host seeker) c.name w w' := by
  rw [run_keepDriver] at hrun
  cases hpresent : ctx.host.isPresent w.tree Driver.versionFile with
  | error e =>
    rw [hpresent] at hrun
    cases hrun
  | ok present =>
    rw [hpresent] at hrun
    cases present with
    | false =>
      cases hrun
      refine .idle hJ hc (hpre.finished (Or.inl hpresent) fun driver h => ?_)
      rw [hpresent] at h
      cases h
    | true =>
      cases hknown : knownDriver ctx.host seeker w with
      | error e =>
        rw [hknown] at hrun
        cases hrun
      | ok found =>
        rw [hknown] at hrun
        cases found with
        | none =>
          cases hrun
          refine .idle hJ hc (hpre.finished (Or.inr ⟨hpresent, Or.inl hknown⟩) fun driver _ h => ?_)
          rw [hknown] at h
          cases h
        | some driver => exact fixStep_driverParts hset hJ hc htarget hpre hpresent hknown hrun

end

/-! ### The whole run -/

theorem clear_of_fixAll {w₁ : World Store} (hset : Settled ctx.host w.service w.tree)
    (hkeyed : w.service.IsKeyed) (hfresh : w.drivers.get? seeker = none)
    (hrun : (fixAll (standard seeker) ctx).run w = .ok () w₁) :
    w₁.service.unreachable = false ∧
      ∀ c ∈ targetsOf w₁.service, Finished ctx.host seeker w₁ c := by
  rw [run_fixAll (privileged_of_fixAll hrun)] at hrun
  obtain ⟨_, wa, hrunA, hrun⟩ := run_bind_ok.mp hrun
  obtain ⟨_, wb, hrunB, hrun⟩ := run_bind_ok.mp hrun
  obtain ⟨_, wc, hrunC, hrun⟩ := run_bind_ok.mp hrun
  obtain ⟨_, wd, hrunD, hend⟩ := run_bind_ok.mp hrun
  cases hend
  have hstart : Course ctx.host seeker w w := .start hfresh
  -- each repair begins with what the one before it has established
  obtain ⟨hJa, honA, hpostA⟩ := onTargets_fix_ok (r := access)
    (show access ∈ standard seeker by simp [standard])
    (fun c _ _ hJ hc _ _ h => fixStep_access hJ hc h) hkeyed hstart (fun _ _ => trivial) hrunA
  obtain ⟨hJb, honB, hpostB⟩ := onTargets_fix_ok (r := resources)
    (show resources ∈ standard seeker by simp [standard])
    (fun c _ _ hJ hc _ hpre h => fixStep_resources hJ hc hpre h) (honA.keyed hkeyed) hJa
    hpostA hrunB
  have honB' := honA.trans honB
  obtain ⟨hJc, honC, hpostC⟩ := onTargets_fix_ok (r := renderNodes)
    (show renderNodes ∈ standard seeker by simp [standard])
    (fun c _ _ hJ hc _ hpre h => fixStep_renderNodes hset hJ hc hpre h) (honB'.keyed hkeyed) hJb
    hpostB hrunC
  have honC' := honB'.trans honC
  obtain ⟨-, honD, hpostD⟩ := onTargets_fix_ok (r := graphicsDriver seeker)
    (show graphicsDriver seeker ∈ standard seeker by simp [standard])
    (fun c _ _ hJ hc htarget hpre h => fixStep_driver hset hJ hc htarget hpre h)
    (honC'.keyed hkeyed) hJc hpostC hrunD
  refine ⟨?_, hpostD⟩
  have hreachable : w.service.unreachable = false := by
    cases hu : w.service.unreachable with
    | false => rfl
    | true =>
      rw [run_onTargets, hu] at hrunA
      cases hrunA
  rw [(honC'.trans honD).reachable, hreachable]

/-- After a fix that succeeds, a check passes and leaves the world as it is. -/
theorem check_of_fixAll {w₁ : World Store} (hset : Settled ctx.host w.service w.tree)
    (hkeyed : w.service.IsKeyed) (hfresh : w.drivers.get? seeker = none)
    (hrun : (fixAll (standard seeker) ctx).run w = .ok () w₁) :
    (checkAll (standard seeker) ctx).run w₁ = .ok () w₁ := by
  obtain ⟨hreachable, hclear⟩ := clear_of_fixAll hset hkeyed hfresh hrun
  have halike : Alike ctx.host seeker w₁.service w₁.tree (knownDriver ctx.host seeker w₁)
      (· = w₁) := by
    refine ⟨?_, ?_, ?_, ?_⟩
    · rintro _ rfl
      rfl
    · rintro _ rfl
      rfl
    · rintro _ rfl
      rfl
    · rintro _ driver c rfl hc hversion hknown
      exact remembering_eq_self ((hclear c hc).remembered driver hversion hknown)
  obtain ⟨hiff, hkeep⟩ := decides_checkAll halike hreachable w₁ rfl
  obtain ⟨w₂, hcheck⟩ := hiff.mpr fun c hc => (hclear c hc).clear
  rw [hkeep w₂ hcheck] at hcheck
  exact hcheck

/-- One fix is enough: on a settled host a check after it passes, and a second
    fix leaves everything as it is. -/
theorem fix_converges (ctx : Context) (seeker : String) (w w₁ : World Store)
    (hset : Settled ctx.host w.service w.tree) (hkeyed : w.service.IsKeyed)
    (hfresh : w.drivers.get? seeker = none)
    (hrun : (fixAll (standard seeker) ctx).run w = .ok () w₁) :
    (checkAll (standard seeker) ctx).run w₁ = .ok () w₁ ∧
      (fixAll (standard seeker) ctx).run w₁ = .ok () w₁ := by
  have hcheck := check_of_fixAll hset hkeyed hfresh hrun
  refine ⟨hcheck, ?_⟩
  have hkeyed₁ : w₁.service.IsKeyed := (onward_of_fixAll hrun).keyed hkeyed
  cases accord_all (privileged_of_fixAll hrun) seeker hkeyed₁ with
  | passes _ hc hf =>
    rw [hcheck] at hc
    cases hc
    exact hf
  | fails _ _ hc _ =>
    rw [hcheck] at hc
    cases hc
  | drifts hc _ _ _ =>
    rw [hcheck] at hc
    cases hc
  | refused hc _ _ _ _ =>
    rw [hcheck] at hc
    cases hc

/-- A closed target with a stale device, on a host with one render node. -/
def staleTarget : World Store where
  service := .ofContainers [plainTarget "c" (.ofList [("home", .make .disk [("source", "/gone")])])]
  tree := .laidOut [.dir "/var/lib/lxd/containers/c" 0o700, .file "/dev/dri/card0" 0o660 []]

theorem fix_converges_staleTarget :
    let w := staleTarget
    let w₁ := stateOf ((fixAll (standard "s") {}).run w)
    Settled {} w.service w.tree ∧ w.service.IsKeyed ∧ w.drivers.get? "s" = none ∧
      (fixAll (standard "s") {}).run w = .ok () w₁ ∧ w₁.journal.length = 3 ∧
      (checkAll (standard "s") {}).run w₁ = .ok () w₁ ∧
      (fixAll (standard "s") {}).run w₁ = .ok () w₁ := by
  have hset : Settled {} staleTarget.service staleTarget.tree := by
    have hlooks : HostView.nodes {} staleTarget.tree renderNodeDir isRenderNode =
          .ok ["/dev/dri/card0"] ∧
        HostView.nodes {} staleTarget.tree driverNodeDir isDriverNode = .ok [] ∧
        HostView.isPresent {} staleTarget.tree "/dev/dri/card0" = .ok true ∧
        (∀ c ∈ targetsOf staleTarget.service, staleTarget.tree.linkStat
          (HostView.path {} (loaderConfigPath {} c.name)) = .error .notFound) ∧
        staleTarget.tree.stat (HostView.path {} renderNodeDir) ≠ .error .notFound := by
      decide +kernel
    obtain ⟨hrender, hdriver, hpresent, hconfig, hthere⟩ := hlooks
    exact ⟨.of_listings hrender hdriver (by simpa using hpresent) hconfig,
      fun _ h => absurd h hthere⟩
  have hkeyed : staleTarget.service.IsKeyed := Store.isKeyed_ofContainers _
  have hfixed : succeeds ((fixAll (standard "s") {}).run staleTarget) = true ∧
      (stateOf ((fixAll (standard "s") {}).run staleTarget)).journal.length = 3 := by
    decide +kernel
  have hrun := eq_ok_of_succeeds hfixed.1
  exact ⟨hset, hkeyed, rfl, hrun, hfixed.2,
    fix_converges {} "s" staleTarget _ hset hkeyed rfl hrun⟩

/-- A target on a host with a driver, and with a link to the loader configuration
    of the target, which is not there yet, for a directory of render nodes. -/
def linkedNodes : World Store where
  service := .ofContainers [plainTarget "c" .empty]
  tree := .laidOut [.dir "/var/lib/lxd/containers/c/rootfs/etc/ld.so.conf.d" 0o755,
    .link "/dev/dri" (loaderConfigPath {} "c"), .dir "/usr/lib/nvidia-384" 0o755,
    .file Driver.versionFile 0o444 (Text.encode "384.111")]

/-- A tidy host need not be settled.  The fix creates the configuration, and the
    check after it finds a file where it wants a directory. -/
theorem tidy_fix_not_converging :
    let w := linkedNodes
    let w₁ := stateOf ((fixAll (standard "s") {}).run w)
    Tidy {} w.service w.tree ∧ w.service.IsKeyed ∧ w.drivers.get? "s" = none ∧
      (fixAll (standard "s") {}).run w = .ok () w₁ ∧
      ¬∃ w₂, (checkAll (standard "s") {}).run w₁ = .ok () w₂ := by
  have htidy : Tidy {} linkedNodes.service linkedNodes.tree := by
    have hlooks : HostView.nodes {} linkedNodes.tree renderNodeDir isRenderNode = .ok [] ∧
        HostView.nodes {} linkedNodes.tree driverNodeDir isDriverNode = .ok [] ∧
        ∀ c ∈ targetsOf linkedNodes.service, linkedNodes.tree.linkStat
          (HostView.path {} (loaderConfigPath {} c.name)) = .error .notFound := by
      decide +kernel
    exact .of_listings hlooks.1 hlooks.2.1 nofun hlooks.2.2
  have hkeyed : linkedNodes.service.IsKeyed := Store.isKeyed_ofContainers _
  have hends : succeeds ((fixAll (standard "s") {}).run linkedNodes) = true ∧
      succeeds ((checkAll (standard "s") {}).run
        (stateOf ((fixAll (standard "s") {}).run linkedNodes))) = false := by
    decide +kernel
  refine ⟨htidy, hkeyed, rfl, eq_ok_of_succeeds hends.1, ?_⟩
  rintro ⟨w₂, hcheck⟩
  have hfails := hends.2
  rw [hcheck] at hfails
  cases hfails

end BuildTargets.Repair
