/-
  BuildTargets/Proofs/Repair/Interruption.lean
  ============================================
  **Fixes that are interrupted and run again.**

  A wait that does not succeed ends a fix in the middle of its moves, with a
  request entered and not carried out (`run_moves`).  The same fix, run again,
  looks at what is left.  If with every move made, the script of the world is
  shortened by just this move (`Foreseen`), then the fix comes to the same from all
  worlds on its way (`Foreseen.stage`), and so from the one in which it was
  interrupted (`Foreseen.resumes`): this one differs from a world on the way in
  what is noted of requests only.
-/
import BuildTargets.Proofs.Repair.Shedding
import BuildTargets.Proofs.Store.Disturbed
import BuildTargets.Proofs.Store.Twin

namespace BuildTargets.Repair

open BuildTargets Script

variable {ctx : Context}

/-! ### Moves on a disturbed store -/

/-- From `d` to `d'` the wait that is disturbed has not come. -/
structure Awaits (d d' : World Disturbed) : Prop where
  calm : d'.service.calm = d.service.calm
  how : d'.service.how = d.service.how
  ahead : d'.service.waits ≤ d'.service.calm

theorem Awaits.trans {d d' d'' : World Disturbed} (h : Awaits d d') (h' : Awaits d' d'') :
    Awaits d d'' :=
  ⟨h'.calm.trans h.calm, h'.how.trans h.how, h'.ahead⟩

/-- A run on a disturbed store that has come to what it comes to on the store
    itself. -/
inductive Spared (d : World Disturbed) : EStateM.Result Failure (World Disturbed) Unit →
    EStateM.Result Failure (World Store) Unit → Prop where
  | ok {d'} (h : Awaits d d') : Spared d (.ok () d') (.ok () d'.plain)
  | error {e d'} (h : Awaits d d') : Spared d (.error e d') (.error e d'.plain)

namespace Spared

variable {d : World Disturbed}

theorem awaits {r : EStateM.Result Failure (World Disturbed) Unit}
    {r' : EStateM.Result Failure (World Store) Unit} (h : Spared d r r') :
    Awaits d (stateOf r) := by
  cases h with
  | ok h => exact h
  | error h => exact h

theorem shift {d₁ : World Disturbed} (h : Awaits d d₁)
    {r : EStateM.Result Failure (World Disturbed) Unit}
    {r' : EStateM.Result Failure (World Store) Unit} (hr : Spared d₁ r r') : Spared d r r' := by
  cases hr with
  | ok h' => exact .ok (h.trans h')
  | error h' => exact .error (h.trans h')

theorem change (hahead : d.service.waits ≤ d.service.calm) (c : HostChange)
    (explain : IoError → Failure) :
    Spared d ((World.change c explain).run d) ((World.change c explain).run d.plain) := by
  have htree : d.plain.tree = d.tree := rfl
  rw [World.run_change, World.run_change, htree]
  cases c.apply d.tree with
  | ok t => exact .ok ⟨rfl, rfl, hahead⟩
  | error e => exact .error ⟨rfl, rfl, hahead⟩

theorem changes (hahead : d.service.waits ≤ d.service.calm) (cs : List HostChange)
    (explain : IoError → Failure) :
    Spared d ((cs.forM (World.change · explain)).run d)
      ((cs.forM (World.change · explain)).run d.plain) := by
  induction cs generalizing d with
  | nil => exact .ok ⟨rfl, rfl, hahead⟩
  | cons c rest ih =>
    have hfirst := change hahead c explain
    rw [run_forM_cons, run_forM_cons]
    generalize (World.change c explain).run d = r at hfirst ⊢
    generalize (World.change c explain).run d.plain = r' at hfirst ⊢
    cases hfirst with
    | ok h => exact shift h (ih h.ahead)
    | error h => exact .error h

end Spared

/-- Of the moves `ms`, begun in `d`, all before `request` have been made, leading to
    `w`, and the wait for `request` has been disturbed. -/
structure Broken (ctx : Context) (d : World Disturbed) (ms : List Move) (request : Request)
    (w : World Store) : Prop where
  made : ∃ before after, ms = before ++ .ask request :: after ∧
    (before.forM (·.make ctx)).run d.plain = .ok () w
  reachable : w.service.unreachable = false
  known : w.service.containers.contains request.container = true
  ends : ∃ d', (ms.forM (·.make ctx)).run d = .error (d.service.how.failureOf request) d' ∧
    d'.plain = w.asked request

theorem run_move (ctx : Context) (d : World Disturbed)
    (hahead : d.service.waits ≤ d.service.calm) (m : Move) :
    Spared d ((m.make ctx).run d) ((m.make ctx).run d.plain) ∨
      ∃ request, m = .ask request ∧ d.plain.service.unreachable = false ∧
        d.plain.service.containers.contains request.container = true ∧
        (m.make ctx).run d =
          .error (d.service.how.failureOf request) (d.counted (d.plain.asked request)) := by
  cases m with
  | reshape changes explain => exact Or.inl (.changes hahead changes explain)
  | ask request =>
    rcases d.plain.service.refused_or_accepted request with hrefused | ⟨hu, hc⟩
    · obtain ⟨e, hrun, hplain⟩ := World.run_perform_refused ctx hrefused
      refine Or.inl ?_
      rw [Move.make, Move.make, hrun, hplain]
      exact .error ⟨rfl, rfl, hahead⟩
    · by_cases hwaits : d.service.waits = d.service.calm
      · exact Or.inr ⟨request, rfl, hu, hc, World.run_perform_disturbed ctx hwaits hu hc⟩
      · have hnext (w : World Store) : Awaits d (d.counted w) :=
          ⟨rfl, rfl, Nat.lt_of_le_of_ne hahead hwaits⟩
        refine Or.inl ?_
        rw [Move.make, Move.make, World.run_perform_calm ctx hwaits hu hc]
        cases (World.perform ctx request).run d.plain with
        | ok u w => exact .ok (hnext w)
        | error e w => exact .error (hnext w)

/-- Moves on a disturbed store come to what they come to on the store itself, or are
    broken off at a request. -/
theorem run_moves (ctx : Context) (d : World Disturbed) (hahead : d.service.waits ≤ d.service.calm)
    (ms : List Move) :
    Spared d ((ms.forM (·.make ctx)).run d) ((ms.forM (·.make ctx)).run d.plain) ∨
      ∃ request w, Broken ctx d ms request w := by
  induction ms generalizing d with
  | nil => exact Or.inl (.ok ⟨rfl, rfl, hahead⟩)
  | cons m rest ih =>
    rcases run_move ctx d hahead m with hspared | ⟨request, rfl, hu, hc, hrun⟩
    · rw [run_forM_cons, run_forM_cons]
      generalize hd : (m.make ctx).run d = r at hspared ⊢
      generalize hw : (m.make ctx).run d.plain = r' at hspared ⊢
      cases hspared with
      | error h => exact Or.inl (.error h)
      | ok h =>
        rcases ih _ h.ahead with hrest | ⟨request, w, hbroken⟩
        · exact Or.inl (.shift h hrest)
        · obtain ⟨before, after, hms, hmade⟩ := hbroken.made
          obtain ⟨d', hends, hplain⟩ := hbroken.ends
          refine Or.inr ⟨request, w, ⟨m :: before, after, ?_, ?_⟩, hbroken.reachable,
            hbroken.known, d', ?_, hplain⟩
          · rw [hms, List.cons_append]
          · rw [run_forM_cons, hw]
            exact hmade
          · rw [run_forM_cons, hd, ← h.how]
            exact hends
    · have hends : ((Move.ask request :: rest).forM (·.make ctx)).run d =
          .error (d.service.how.failureOf request) (d.counted (d.plain.asked request)) := by
        rw [run_forM_cons, hrun]
      exact Or.inr ⟨request, d.plain, ⟨[], rest, rfl, rfl⟩, hu, hc, _, hends,
        World.plain_counted ..⟩

/-! ### Scripts and what is noted of requests -/

theorem respectsTwins_make (m : Move) : RespectsTwins (m.make ctx) := by
  cases m with
  | ask request => exact .perform ctx request
  | reshape changes explain => exact .forM (fun c => .change c explain) changes

theorem respectsTwins_follow (s : Script) : RespectsTwins (s.follow ctx .fix) := by
  rw [follow_fix]
  exact .bind (.forM respectsTwins_make s.moves) fun _ => .ofExcept s.ending

theorem requests_moves (ms : List Move) :
    Keeps (fun w w' : World Store => w.service.requests <+: w'.service.requests)
      (ms.forM (·.make ctx)) := by
  have hrefl (w : World Store) : w.service.requests <+: w.service.requests := List.prefix_rfl
  have htrans (w w' w'' : World Store) (h : w.service.requests <+: w'.service.requests)
      (h' : w'.service.requests <+: w''.service.requests) := h.trans h'
  refine .forM hrefl htrans fun m _ => ?_
  cases m with
  | ask request => exact World.requests_perform ctx request
  | reshape changes explain =>
    refine .forM hrefl htrans fun c _ w => ?_
    rw [World.run_change]
    cases c.apply w.tree <;> exact hrefl w

/-- Moves that begin with a request note it first. -/
theorem requests_ask_moves {request : Request} {after : List Move} {w : World Store}
    (hu : w.service.unreachable = false)
    (hc : w.service.containers.contains request.container = true) :
    (w.asked request).service.requests <+:
      (stateOf (((.ask request :: after).forM (·.make ctx)).run w)).service.requests := by
  have hfirst : (stateOf ((World.perform ctx request).run w)).service.requests =
      (w.asked request).service.requests := World.requests_perform_of_accepted hu hc
  rw [run_forM_cons, Move.make]
  cases hrun : (World.perform ctx request).run w with
  | ok u w' =>
    rw [hrun] at hfirst
    have hnoted : (w.asked request).service.requests <+: w'.service.requests :=
      hfirst ▸ List.prefix_rfl
    exact hnoted.trans (requests_moves after w')
  | error e w' =>
    rw [hrun] at hfirst
    exact hfirst ▸ List.prefix_rfl

/-! ### Resumption -/

/-- A fix, for every service. -/
abbrev Fix : Type 1 := ∀ (β : Type) [Service β], Action (World β) Unit

/-- What is to hold of a fix that was broken off, and of the same fix as it would have gone
    on. -/
structure Breaking (how : Disturbance) (broken : EStateM.Result Failure (World Disturbed) Unit)
    (whole : EStateM.Result Failure (World Store) Unit) : Prop where
  /-- The fix ends with the failure of the wait that was disturbed, that for its last
      request. -/
  stops : ∃ request, (stateOf broken).plain.service.requests.getLast? = some request ∧
    broken = .error (how.failureOf request) (stateOf broken)
  /-- It made no request that the whole fix does not make. -/
  requests : (stateOf broken).plain.service.requests <+: (stateOf whole).service.requests

/-- What is to hold besides of the same fix run again from where it was broken off. -/
structure Resumption (how : Disturbance) (broken : EStateM.Result Failure (World Disturbed) Unit)
    (whole again : EStateM.Result Failure (World Store) Unit) : Prop
    extends Breaking how broken whole where
  result : resultOf again = resultOf whole
  containers : (stateOf again).service.containers = (stateOf whole).service.containers
  tree : (stateOf again).tree = (stateOf whole).tree

/-- Something holds of a fix whenever a wait of it is disturbed. -/
def WhenBroken (fix : Fix) (calm : Nat) (how : Disturbance) (w : World Store)
    (P : EStateM.Result Failure (World Disturbed) Unit → Prop) : Prop :=
  ∀ broken, (fix Disturbed).run (w.disturbed calm how) = broken →
    calm < (stateOf broken).service.waits → P broken

/-- Whatever wait of a fix is disturbed, the fix stops there. -/
def Breaks (fix : Fix) (calm : Nat) (how : Disturbance) (w : World Store) : Prop :=
  WhenBroken fix calm how w fun broken => Breaking how broken ((fix Store).run w)

/-- Whatever wait of a fix is disturbed, the fix can be run again. -/
def Resumes (fix : Fix) (calm : Nat) (how : Disturbance) (w : World Store) : Prop :=
  WhenBroken fix calm how w fun broken =>
    Resumption how broken ((fix Store).run w) ((fix Store).run (stateOf broken).plain)

section

variable {fix : Fix} {s : Script} {w w₀ : World Store} {calm : Nat} {how : Disturbance}

/-- A fix that follows a script, maybe from another world, is broken off at a request of
    the script. -/
theorem exists_broken (hdisturbed : (fix Disturbed).run (w.disturbed calm how) =
      (s.follow ctx .fix).run (w₀.disturbed calm how)) :
    WhenBroken fix calm how w fun broken => ∃ request w₁ d',
      Broken ctx (w₀.disturbed calm how) s.moves request w₁ ∧
      broken = .error (how.failureOf request) d' ∧ d'.plain = w₁.asked request := by
  intro broken hbroken hwaits
  rw [hdisturbed, follow_fix] at hbroken
  rcases run_moves ctx (w₀.disturbed calm how) (Nat.zero_le calm) s.moves with
    hspared | ⟨request, w₁, hends⟩
  · -- if no wait was disturbed, there were no more than are left alone
    have hahead := hspared.awaits.ahead
    rw [hspared.awaits.calm, ← stateOf_ofExcept _ s.ending, hbroken] at hahead
    exact absurd hwaits (Nat.not_lt.mpr hahead)
  · obtain ⟨d', hrun, hplain⟩ := hends.ends
    refine ⟨request, w₁, d', hends, ?_, hplain⟩
    rw [← hbroken, EStateM.run_bind, hrun]
    rfl

theorem breaks_of_follows (hstore : (fix Store).run w = (s.follow ctx .fix).run w₀)
    (hdisturbed : (fix Disturbed).run (w.disturbed calm how) =
      (s.follow ctx .fix).run (w₀.disturbed calm how)) : Breaks fix calm how w := by
  intro broken hbroken hwaits
  obtain ⟨request, w₁, d', hends, rfl, hplain⟩ := exists_broken hdisturbed broken hbroken hwaits
  obtain ⟨before, after, hmoves, hmade⟩ := hends.made
  rw [World.plain_disturbed] at hmade
  refine ⟨⟨request, ?_, ?_⟩, ?_⟩
  · rw [stateOf_error, hplain]
    exact List.getLast?_concat
  · rw [stateOf_error]
  · rw [stateOf_error, hplain, hstore, follow_fix, stateOf_ofExcept, hmoves, List.forM_eq_forM,
      List.forM_append, EStateM.run_bind, ← List.forM_eq_forM, hmade]
    exact requests_ask_moves hends.reachable hends.known

/-- Once the first move is made, to go on with a script is to follow what is left of
    it. -/
theorem Script.Sheds.run_follow {s' : Script} {m : Move} {w' : World Store} (h : s.Sheds m s')
    (hrun : (m.make ctx).run w = .ok () w') :
    (s.follow ctx .fix).run w = (s'.follow ctx .fix).run w' := by
  rw [follow_fix, follow_fix, h.moves, h.ending, EStateM.run_bind, EStateM.run_bind,
    run_forM_cons, hrun]

end

/-- On the worlds of the class `K` a fix follows its plan, and the plan of a world on
    its way is what is left of the plan to do. -/
structure Foreseen (ctx : Context) (fix : Fix) (plan : World Store → Script)
    (K : World Store → Prop) : Prop where
  run_store : ∀ w, K w → (fix Store).run w = ((plan w).follow ctx .fix).run w
  run_disturbed : ∀ d : World Disturbed, K d.plain →
    (fix Disturbed).run d = ((plan d.plain).follow ctx .fix).run d
  asked : ∀ w request, K w → K (w.asked request) ∧ plan (w.asked request) = plan w
  step : ∀ w m ms w', K w → (plan w).moves = m :: ms → (m.make ctx).run w = .ok () w' →
    K w' ∧ (plan w).Sheds m (plan w')

namespace Foreseen

variable {fix : Fix} {plan : World Store → Script} {K : World Store → Prop}

/-- A fix comes to the same from all worlds on its way. -/
theorem stage (h : Foreseen ctx fix plan K) {w w₁ : World Store} {before after : List Move}
    (hK : K w) (hmoves : (plan w).moves = before ++ after)
    (hrun : (before.forM (·.make ctx)).run w = .ok () w₁) :
    K w₁ ∧ (fix Store).run w₁ = (fix Store).run w := by
  induction before generalizing w with
  | nil =>
    cases hrun
    exact ⟨hK, rfl⟩
  | cons m before ih =>
    rw [List.forM_eq_forM, List.forM_cons] at hrun
    obtain ⟨_, w', hm, hrest⟩ := run_bind_ok.mp hrun
    obtain ⟨hK', hsheds⟩ := h.step w m _ w' hK hmoves hm
    have hmoves' : (plan w').moves = before ++ after := by
      rw [hsheds.moves, List.cons_append] at hmoves
      exact (List.cons.inj hmoves).2
    obtain ⟨hK₁, hsame⟩ := ih hK' hmoves' hrest
    refine ⟨hK₁, hsame.trans ?_⟩
    rw [h.run_store w hK, h.run_store w' hK', hsheds.run_follow hm]

theorem resumes (h : Foreseen ctx fix plan K) {w : World Store} (hK : K w) (calm : Nat)
    (how : Disturbance) : Resumes fix calm how w := by
  have hstore := h.run_store w hK
  have hdisturbed := h.run_disturbed (w.disturbed calm how) hK
  intro broken hbroken hwaits
  have hbreaking := breaks_of_follows hstore hdisturbed broken hbroken hwaits
  obtain ⟨request, w₁, d', hends, rfl, hplain⟩ := exists_broken hdisturbed broken hbroken hwaits
  obtain ⟨before, after, hmoves, hmade⟩ := hends.made
  obtain ⟨hK₁, hsame⟩ := h.stage hK hmoves hmade
  -- what is left by the broken run is a twin of a world on the way
  obtain ⟨hK₁', hplan⟩ := h.asked w₁ request hK₁
  have htwins : Twins ((fix Store).run w₁) ((fix Store).run (w₁.asked request)) := by
    rw [h.run_store w₁ hK₁, h.run_store _ hK₁', hplan]
    exact respectsTwins_follow (plan w₁) w₁ _ (World.twin_asked w₁ request)
  rw [stateOf_error, hplain]
  refine ⟨hbreaking, ?_, ?_, ?_⟩
  · rw [htwins.result, hsame]
  · rw [htwins.state.service.containers, hsame]
  · rw [htwins.state.tree, hsame]

end Foreseen

end BuildTargets.Repair
