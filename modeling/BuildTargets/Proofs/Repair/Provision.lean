/-
  BuildTargets/Proofs/Repair/Provision.lean
  =========================================
  **Which nodes a fix passes into a container.**

  The nodes of a directory are looked at as they are listed, and each that is not yet
  the name of a device is added (`Passing`).  `passes_nodes` says this of a container
  whose devices may have changed since it was looked at, as long as no node is among
  the changes: so it serves for the render nodes, which are all that their fix is about
  (`renderNodes_fix_effect`), and for the nodes of the driver, which come last.

  A node is listed under the text of its name.  Names that are not UTF-8 may have one
  text, and then the second of them is asked for and refused, because a device of this
  name has just been added.  Render nodes have names of ASCII, and it cannot happen to
  them.
-/
import BuildTargets.Proofs.Repair.Effect
import BuildTargets.Proofs.Repair.Warrant
import BuildTargets.Proofs.Text.Utf8

namespace BuildTargets.Repair

open BuildTargets Script

variable {host : HostView} {t : Tree} {c : Container} {ctx : Context} {w : World Store}
variable {dir : String} {isWanted : String → Bool} {P : String → Prop}

/-! ### Listings -/

/-- The nodes of a directory that are missing among some devices. -/
structure Provision (host : HostView) (t : Tree) (dir : String) (P : String → Prop)
    (devices : Dict String Device) (added : List String) : Prop where
  sorted : added.Pairwise Text.Precedes
  mem_iff : ∀ node, node ∈ added ↔ IsNodeIn host t dir P node ∧ devices.get? node = none

/-- An entry of a directory with a text of a class, no directory itself, the path of
    which is not the name of a device. -/
def IsMissing (host : HostView) (t : Tree) (dir : String) (P : String → Prop)
    (devices : Dict String Device) (name : RawText) : Prop :=
  (∃ p m n, t.stat (host.path dir) = .ok (p, .dir m) ∧ t.node? (p ++ [name]) = some n ∧
    n.isDir = false ∧ P name.shown) ∧ devices.get? (dir ++ "/" ++ name.shown) = none

/-- The paths of these entries in order, one for each of them.  Two of them are the same
    if their names have one text. -/
structure Missing (host : HostView) (t : Tree) (dir : String) (P : String → Prop)
    (devices : Dict String Device) (paths : List String) : Prop where
  sorted : paths.Pairwise fun a b => a = b ∨ Text.Precedes a b
  entries : ∃ names : List RawText, names.Nodup ∧
    (∀ name, name ∈ names ↔ IsMissing host t dir P devices name) ∧
    paths.Perm (names.map fun name => dir ++ "/" ++ name.shown)

/-- What is asked for and what is added for a directory, and how it ends.  A path that
    comes a second time is the name of a device by then, and is refused. -/
inductive Passing (host : HostView) (t : Tree) (container dir : String) (P : String → Prop)
    (devices : Dict String Device) : List String → List String → Except Failure Unit → Prop where
  | absent (habsent : t.stat (host.path dir) = .error .notFound) :
      Passing host t container dir P devices [] [] (.ok ())
  | listed {entries missing} (hlist : t.listDir (host.path dir) = .ok entries)
      (hmissing : Missing host t dir P devices missing) (honce : missing.Nodup) :
      Passing host t container dir P devices missing missing (.ok ())
  | refused {entries before node after} (hlist : t.listDir (host.path dir) = .ok entries)
      (hmissing : Missing host t dir P devices (before ++ node :: node :: after))
      (honce : (before ++ [node]).Nodup) :
      Passing host t container dir P devices (before ++ [node, node]) (before ++ [node])
        (.error (.operationFailed ("add device " ++ node ++ " to " ++ container)
          ("device " ++ node ++ " already exists")))
  | unlisted {e} (hlist : t.listDir (host.path dir) = .error e) (hne : e ≠ .notFound) :
      Passing host t container dir P devices [] [] (.error (.io e))

/-- If no path comes twice, what is missing is given by the paths alone. -/
theorem Missing.provision {devices : Dict String Device} {paths : List String}
    (h : Missing host t dir P devices paths) (honce : paths.Nodup) :
    Provision host t dir P devices paths where
  sorted := (h.sorted.and honce).imp fun ⟨hor, hne⟩ => hor.resolve_left hne
  mem_iff := by
    intro node
    obtain ⟨names, -, hnames, hperm⟩ := h.entries
    rw [hperm.mem_iff, List.mem_map]
    constructor
    · rintro ⟨name, hname, rfl⟩
      obtain ⟨⟨p, m, n, hstat, hn, hdir, hP⟩, hnone⟩ := (hnames name).mp hname
      exact ⟨⟨p, m, name, n, hstat, hn, hdir, hP, rfl⟩, hnone⟩
    · rintro ⟨⟨p, m, name, n, hstat, hn, hdir, hP, rfl⟩, hnone⟩
      exact ⟨name, (hnames name).mpr ⟨⟨p, m, n, hstat, hn, hdir, hP⟩, hnone⟩, rfl⟩

/-- Nothing comes twice of a class of names that are all texts. -/
theorem Missing.nodup {devices : Dict String Device} {paths : List String}
    (h : Missing host t dir P devices paths)
    (htexts : ∀ name : RawText, P name.shown → RawText.ofText name.shown = name) :
    paths.Nodup := by
  obtain ⟨names, hnodup, hnames, hperm⟩ := h.entries
  refine hperm.nodup_iff.mpr (List.pairwise_map.mpr (hnodup.imp_of_mem ?_))
  intro name name' hname hname' hne heq
  obtain ⟨⟨-, -, -, -, -, -, hP⟩, -⟩ := (hnames name).mp hname
  obtain ⟨⟨-, -, -, -, -, -, hP'⟩, -⟩ := (hnames name').mp hname'
  rw [String.append_right_inj] at heq
  exact hne (by rw [← htexts name hP, heq, htexts name' hP'])

/-- Nothing is missing of a directory that is not there. -/
theorem provision_of_absent (habsent : t.stat (host.path dir) = .error .notFound)
    (devices : Dict String Device) : Provision host t dir P devices [] where
  sorted := .nil
  mem_iff := by
    intro node
    simp only [List.not_mem_nil, false_iff, not_and]
    rintro ⟨p, m, entry, n, hstat, -⟩
    rw [habsent] at hstat
    cases hstat

/-- What is missing of a listing is what is missing of the directory. -/
theorem missing_of_listed {p : Place} {m : Nat}
    (hdir : HostView.withoutTrailingSlashes dir = dir)
    (hwanted : ∀ name, isWanted name = true ↔ P name)
    (hstat : t.stat (host.path dir) = .ok (p, .dir m)) {nodes : List String}
    (hnodes : host.nodes t dir isWanted = .ok nodes) (c : Container) :
    Missing host t dir P c.devices (nodes.filter fun node => !c.hasDevice node) where
  sorted := by
    refine ((Tree.sorted_nodes hnodes).imp fun {a b} hle => ?_).filter _
    exact (eq_or_lt_of_le hle).imp_right Text.precedes_of_lt
  entries := by
    have hparts : nodes = _ := Except.ok.inj (hnodes.symm.trans
      (Tree.nodes_eq_ok_iff.mpr (Or.inl ⟨p, m, hstat, rfl⟩)))
    rw [hdir] at hparts
    refine ⟨(((t.children p).filter fun e => isWanted e.1.shown && !e.2.isDir).filter
      fun e => !c.hasDevice (dir ++ "/" ++ e.1.shown)).map (·.1), ?_, fun name => ?_, ?_⟩
    · have hchildren := List.pairwise_map.mp (Tree.nodup_children t p)
      exact List.pairwise_map.mpr ((hchildren.filter _).filter _)
    · constructor
      · intro hname
        obtain ⟨⟨name, n⟩, he, rfl⟩ := List.mem_map.mp hname
        simp only [List.mem_filter, Bool.and_eq_true, Bool.not_eq_true',
          Tree.mem_children_iff] at he
        obtain ⟨⟨hn, hname, hnotDir⟩, hlacks⟩ := he
        refine ⟨⟨p, m, n, hstat, hn, hnotDir, (hwanted _).mp hname⟩, ?_⟩
        simpa [Container.hasDevice, Dict.contains] using hlacks
      · rintro ⟨⟨p', m', n, hstat', hn, hnotDir, hname⟩, hnone⟩
        cases hstat.symm.trans hstat'
        refine List.mem_map.mpr ⟨(name, n), ?_, rfl⟩
        simp only [List.mem_filter, Bool.and_eq_true, Bool.not_eq_true', Tree.mem_children_iff]
        refine ⟨⟨hn, (hwanted _).mpr hname, hnotDir⟩, ?_⟩
        simp [Container.hasDevice, Dict.contains, hnone]
    · rw [hparts]
      refine ((HostView.sortPaths_perm _).filter _).trans (.of_eq ?_)
      rw [List.filter_map, List.map_map]
      rfl

/-- Of paths in order none comes twice, or there is a first that does. -/
theorem nodup_or_again {paths : List String} (hsorted : paths.Pairwise (· ≤ ·)) :
    paths.Nodup ∨ ∃ before node after, paths = before ++ node :: node :: after ∧
      (before ++ [node]).Nodup := by
  induction paths with
  | nil => exact Or.inl .nil
  | cons path rest ih =>
    by_cases hmem : path ∈ rest
    · obtain ⟨others, rfl⟩ := List.head?_eq_some_iff.mp (head?_of_mem hsorted hmem)
      exact Or.inr ⟨[], path, others, rfl, List.nodup_singleton path⟩
    · rcases ih (List.pairwise_cons.mp hsorted).2 with honce | ⟨before, node, after, rfl, honce⟩
      · exact Or.inl (List.nodup_cons.mpr ⟨hmem, honce⟩)
      · refine Or.inr ⟨path :: before, node, after, rfl, List.nodup_cons.mpr ⟨?_, honce⟩⟩
        rw [List.append_cons] at hmem
        exact fun hagain => hmem (List.mem_append_left _ hagain)

theorem ending_nodes (c : Container) (reason : String) (nodes : List String) :
    (all (nodeScript c reason) nodes).ending = .ok () := by
  induction nodes with
  | nil => rfl
  | cons node rest ih =>
    rw [all, ending_append, ih]
    unfold nodeScript
    by_cases hhas : c.hasDevice node = true
    · simp [hhas, clear]
    · simp [hhas, single]

/-! ### Effects -/

/-- What a run comes to that passes the nodes of a directory into a container with the
    devices `now`. -/
def Passes (host : HostView) (dir : String) (P : String → Prop) (c : Container)
    (now : Dict String Device) (w : World Store) (r : EStateM.Result Failure (World Store) Unit) :
    Prop :=
  ∃ asked added devices result, Passing host w.tree c.name dir P c.devices asked added result ∧
    HasEffect { c with devices := now } w r
      ⟨result, asked.map fun node => .asked (.addDevice c.name node (.passThrough node)), devices,
        w.tree⟩ ∧
    ∀ k, devices.get? k = if k ∈ added then some (.passThrough k) else now.get? k

/-- A script that asks for what is missing is gone through to the first path that comes
    a second time. -/
theorem passes_missing {now : Dict String Device} {missing : List String}
    {entries : List (RawText × Node)} {s : Script}
    (hlist : w.tree.listDir (host.path dir) = .ok entries)
    (hmissing : Missing host w.tree dir P c.devices missing)
    (hsorted : missing.Pairwise (· ≤ ·))
    (hlacks : ∀ node ∈ missing, now.contains node = false) (hasks : s.OnlyAsks)
    (hrequests : s.requests =
      missing.map fun node => .addDevice c.name node (.passThrough node))
    (hending : s.ending = .ok ()) (hw : Willing ctx w)
    (hc : w.stored? c.name = some { c with devices := now }) :
    Passes host dir P c now w ((s.follow ctx .fix).run w) := by
  rcases nodup_or_again hsorted with honce | ⟨before, node, after, rfl, honce⟩
  · obtain ⟨devices, hrefits⟩ := refits_additions c.name .passThrough honce hlacks
    refine ⟨missing, missing, devices, _, .listed hlist hmissing honce, ?_,
      hrefits.get?_additions⟩
    rw [← hrequests] at hrefits
    have heffect := hasEffect_follow (c := { c with devices := now }) hasks hw hc hrefits
    rw [hrequests, List.map_map, hending] at heffect
    exact heffect
  · have hlacks' : ∀ k ∈ before ++ [node], now.contains k = false := by
      intro k hk
      refine hlacks k ?_
      rw [List.append_cons]
      exact List.mem_append_left _ hk
    obtain ⟨devices, hrefits⟩ := refits_additions c.name .passThrough honce hlacks'
    have hadded := hrefits.get?_additions
    have hhas : devices.contains node = true := by
      rw [Dict.contains, hadded, if_pos (by simp)]
      rfl
    refine ⟨before ++ [node, node], before ++ [node], devices, _,
      .refused hlist hmissing honce, ?_, hadded⟩
    have heffect := HasEffect.asksUpTo (c := { c with devices := now }) hrefits hw hc hhas
      (.passThrough node) (after.map fun node => .ask (.addDevice c.name node (.passThrough node)))
    have hmoves : s.moves = _ := hasks.moves_eq
    rw [Script.follow_fix, hmoves, hrequests]
    simp only [List.map_append, List.map_cons, List.map_nil, List.map_map, List.append_assoc,
      List.cons_append, List.nil_append] at heffect ⊢
    exact heffect.cut

/-- The nodes of a directory are passed into a container that still lacks those that
    it lacked when it was looked at. -/
theorem passes_nodes (host : HostView) (dir : String)
    (hdir : HostView.withoutTrailingSlashes dir = dir)
    (hwanted : ∀ name, isWanted name = true ↔ P name) (hw : Willing ctx w)
    {now : Dict String Device} (hc : w.stored? c.name = some { c with devices := now })
    (hsame : ∀ k, k ≠ libraryDevice → now.contains k = c.hasDevice k) (reason : String) :
    Passes host dir P c now w
      (((nodesScript c reason (host.nodes w.tree dir isWanted)).follow ctx .fix).run w) := by
  cases hnodes : host.nodes w.tree dir isWanted with
  | error e =>
    have hlist : w.tree.listDir (host.path dir) = .error e ∧ e ≠ .notFound := by
      unfold HostView.nodes at hnodes
      split at hnodes
      · cases hnodes
      · next e' hlist =>
        split at hnodes
        · cases hnodes
        · next hne =>
          cases hnodes
          exact ⟨hlist, hne⟩
    exact ⟨[], [], now, _, .unlisted hlist.1 hlist.2,
      .idle (c := { c with devices := now }) hc rfl, fun k => by simp⟩
  | ok nodes =>
    rcases Tree.nodes_eq_ok_iff.mp hnodes with ⟨p, m, hstat, -⟩ | ⟨habsent, rfl⟩
    · refine passes_missing (Tree.listDir_eq_ok_iff.mpr ⟨p, m, hstat, rfl⟩)
        (missing_of_listed hdir hwanted hstat hnodes c) ((Tree.sorted_nodes hnodes).filter _)
        (fun node hnode => ?_) (onlyAsks_nodesScript c reason (.ok nodes))
        (requests_nodes c reason nodes) (ending_nodes c reason nodes) hw hc
      obtain ⟨hmem, hlacks⟩ := List.mem_filter.mp hnode
      rw [hsame node (ne_libraryDevice (Tree.slash_of_mem_nodes hnodes hmem))]
      simpa using hlacks
    · exact ⟨[], [], now, _, .absent habsent, .idle (c := { c with devices := now }) hc rfl,
        fun k => by simp⟩

/-- On a service that does what it is asked, the fix of the render nodes adds those that
    the container lacks, one request for each, and does nothing else. -/
theorem renderNodes_fix_effect (ctx : Context) (w : World Store) (name : String) (c : Container)
    (hw : Willing ctx w) (hkeyed : w.service.IsKeyed) (hc : w.stored? name = some c)
    (hconfined : ctx.host.confined = false)
    (hdir : w.tree.stat (ctx.host.path "/dev/dri") = .error .notFound ∨
      ∃ entries, w.tree.listDir (ctx.host.path "/dev/dri") = .ok entries) :
    ∃ added devices,
      HasEffect c w ((renderNodes.onContainer ctx .fix name).run w)
        ⟨.ok (), added.map fun node => .asked (.addDevice name node (.passThrough node)), devices,
          w.tree⟩ ∧
      Provision ctx.host w.tree "/dev/dri" IsRenderName c.devices added ∧
      (∀ k, devices.get? k = if k ∈ added then some (.passThrough k) else c.devices.get? k) ∧
      ∀ k d, c.devices.get? k = some d → devices.get? k = some d := by
  have hname : c.name = name := hkeyed name c hc
  subst hname
  obtain ⟨asked, added, devices, result, hpassing, heffect, hdevices⟩ :=
    passes_nodes ctx.host renderNodeDir (by decide) (fun _ => isRenderNode_iff) hw hc
      (fun _ _ => rfl) "container is missing device node "
  have hadded : result = .ok () ∧ asked = added ∧
      Provision ctx.host w.tree renderNodeDir IsRenderName c.devices added := by
    have htexts (name : RawText) (hname : IsRenderName name.shown) :
        RawText.ofText name.shown = name :=
      RawText.ofText_shown (replacement_notMem_of_isRenderNode (isRenderNode_iff.mpr hname))
    cases hpassing with
    | absent habsent => exact ⟨rfl, rfl, provision_of_absent habsent _⟩
    | listed hlist hmissing honce => exact ⟨rfl, rfl, hmissing.provision honce⟩
    | refused hlist hmissing honce =>
      -- the names of render nodes are texts, so none of them comes twice
      have hnodup := hmissing.nodup htexts
      simp [List.nodup_append] at hnodup
    | unlisted hlist hne =>
      rcases hdir with habsent | ⟨entries, hlist'⟩
      · have hnone := Tree.listDir_eq_notFound_iff.mpr habsent
        rw [renderNodeDir, hnone] at hlist
        cases hlist
        exact absurd rfl hne
      · rw [renderNodeDir, hlist'] at hlist
        cases hlist
  obtain ⟨rfl, rfl, hprovision⟩ := hadded
  refine ⟨asked, devices, ?_, hprovision, hdevices, fun k d hd => ?_⟩
  · rw [run_onContainer_stored _ hw.reachable hc]
    change HasEffect c w ((keepRenderNodes ctx .fix c).run w) _
    rw [keepRenderNodes_follows, renderNodesScript, hconfined]
    exact heffect
  · have hnot : k ∉ asked := by
      intro hk
      have hnone := ((hprovision.mem_iff k).mp hk).2
      rw [hd] at hnone
      cases hnone
    rw [hdevices, if_neg hnot, hd]

/-- A host with render nodes, and with other things beside them, one of which has a line
    break at its end. -/
def crowdedHost : World Store where
  service := .ofContainers [plainTarget "c" (.ofList [
    ("/dev/dri/card2", .make .disk [("source", "/srv")])])]
  tree := .laidOut [.file "/dev/dri/renderD128" 0o660 [], .file "/dev/dri/card10" 0o660 [],
    .file "/dev/dri/card2" 0o660 [], .link "/dev/dri/card3" "/dev/dri/by-path",
    .dir "/dev/dri/by-path" 0o755, .dir "/dev/dri/card4" 0o755, .file "/dev/dri/card" 0o660 [],
    .file "/dev/dri/card5\n" 0o660 [], .file "/dev/dri/card6-HDMI" 0o660 []]

/-- The link is passed on though it leads to a directory, and in the order of bytes it
    comes after `card10`. -/
theorem renderNodes_fix_effect_crowdedHost :
    let r := (renderNodes.onContainer {} .fix "c").run crowdedHost
    let add (node : String) : Request := .addDevice "c" node (.passThrough node)
    Willing {} crowdedHost ∧ crowdedHost.service.IsKeyed ∧
      (stateOf r).service.requests =
        [add "/dev/dri/card10", add "/dev/dri/card3", add "/dev/dri/renderD128"] ∧
      ∃ c added devices, crowdedHost.stored? "c" = some c ∧
        HasEffect c crowdedHost r ⟨.ok (), added.map fun node => .asked (add node), devices,
          crowdedHost.tree⟩ ∧
        Provision {} crowdedHost.tree "/dev/dri" IsRenderName c.devices added := by
  intro r add
  have hw : Willing {} crowdedHost := ⟨rfl, rfl, rfl⟩
  have hkeyed : crowdedHost.service.IsKeyed := Store.isKeyed_ofContainers _
  have hrequests : (stateOf r).service.requests =
      [add "/dev/dri/card10", add "/dev/dri/card3", add "/dev/dri/renderD128"] := by
    decide +kernel
  obtain ⟨c, hc⟩ : ∃ c, crowdedHost.stored? "c" = some c :=
    Option.isSome_iff_exists.mp (by decide +kernel)
  have hlistable : (crowdedHost.tree.listDir "/dev/dri").toBool = true := by decide +kernel
  obtain ⟨entries, hlist⟩ : ∃ entries, crowdedHost.tree.listDir "/dev/dri" = .ok entries := by
    cases hlist : crowdedHost.tree.listDir "/dev/dri" with
    | ok entries => exact ⟨entries, rfl⟩
    | error e =>
      rw [hlist] at hlistable
      cases hlistable
  obtain ⟨added, devices, heffect, hprovision, -, -⟩ :=
    renderNodes_fix_effect {} crowdedHost "c" c hw hkeyed hc rfl (Or.inr ⟨entries, hlist⟩)
  exact ⟨hw, hkeyed, hrequests, c, added, devices, hc, heffect, hprovision⟩

end BuildTargets.Repair
