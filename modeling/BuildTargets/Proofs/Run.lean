/-
  BuildTargets/Proofs/Run.lean
  ============================
  **Rules for runs of actions.**

  An action is run on a state and ends in a result with a final state, success
  or not.  Three kinds of statements are made about runs, and each has one
  rule for every way of putting actions together:

    * a successful run of a sequence or of a loop is made of successful runs
      (`run_bind_ok`, `run_forM_ok`);
    * a relation that is reflexive and transitive, and that each part of an
      action keeps between its two ends, is kept by the whole (`Keeps`);
    * an action that decides something does so on every state of a class that it
      does not leave (`Decides`).
-/
import BuildTargets.Failure
import Mathlib.Control.Monad.Basic

namespace BuildTargets

variable {σ α β : Type}

/-! ### Sequences -/

theorem run_forM_cons (f : α → Action σ Unit) (a : α) (rest : List α) (s : σ) :
    ((a :: rest).forM f).run s = match (f a).run s with
      | .ok _ s' => (rest.forM f).run s'
      | .error e s' => .error e s' := by
  rw [List.forM_eq_forM, List.forM_cons, EStateM.run_bind]
  cases (f a).run s <;> rfl

/-! ### Successful runs -/

theorem run_bind_ok {x : Action σ α} {f : α → Action σ β} {s s'' : σ} {b : β} :
    (x >>= f).run s = .ok b s'' ↔ ∃ a s', x.run s = .ok a s' ∧ (f a).run s' = .ok b s'' := by
  rw [EStateM.run_bind]
  cases x.run s with
  | ok a s' =>
    refine ⟨fun h => ⟨a, s', rfl, h⟩, ?_⟩
    rintro ⟨a', s₁, heq, h⟩
    cases heq
    exact h
  | error e s' => simp

/-- A loop that ends well carries a statement about what is left to do, and
    about the state, from its start to its end. -/
theorem run_forM_ok {f : α → Action σ Unit} {I : List α → σ → Prop}
    (hstep : ∀ a rest s s', I (a :: rest) s → (f a).run s = .ok () s' → I rest s')
    {l : List α} {s s' : σ} (hI : I l s) (hrun : (l.forM f).run s = .ok () s') : I [] s' := by
  induction l generalizing s with
  | nil =>
    cases hrun
    exact hI
  | cons a rest ih =>
    rw [List.forM_eq_forM, List.forM_cons] at hrun
    obtain ⟨_, s₁, ha, hrest⟩ := run_bind_ok.mp hrun
    exact ih (hstep a rest s s₁ hI ha) hrest

/-! ### Relations between the two ends of a run -/

/-- The state that a run ends in, whatever its result. -/
def stateOf : EStateM.Result Failure σ α → σ
  | .ok _ s => s
  | .error _ s => s

@[simp] theorem stateOf_ok (a : α) (s : σ) :
    stateOf (.ok a s : EStateM.Result Failure σ α) = s := rfl

@[simp] theorem stateOf_error (e : Failure) (s : σ) :
    stateOf (.error e s : EStateM.Result Failure σ α) = s := rfl

theorem stateOf_ofExcept (x : Action σ Unit) (r : Except Failure α) (s : σ) :
    stateOf ((x >>= fun _ => MonadExcept.ofExcept r).run s) = stateOf (x.run s) := by
  rw [EStateM.run_bind]
  cases x.run s with
  | ok _ s' => cases r <;> rfl
  | error e s' => rfl

/-- What a run comes to, without the state that it leaves. -/
def resultOf : EStateM.Result Failure σ α → Except Failure α
  | .ok a _ => .ok a
  | .error e _ => .error e

def succeeds : EStateM.Result Failure σ α → Bool
  | .ok _ _ => true
  | .error _ _ => false

theorem eq_ok_of_succeeds {r : EStateM.Result Failure σ Unit} (h : succeeds r = true) :
    r = .ok () (stateOf r) := by
  cases r with
  | ok _ s => rfl
  | error e s => cases h

/-- No operation has failed that a run has waited for: it does not end with the failure of
    one. -/
def NoOperationFails (r : EStateM.Result Failure σ α) : Prop :=
  ∀ operation detail, resultOf r ≠ .error (.operationFailed operation detail)

theorem noOperationFails_of_succeeds {r : EStateM.Result Failure σ α} (h : succeeds r = true) :
    NoOperationFails r := by
  intro operation detail hresult
  cases r with
  | ok _ s => cases hresult
  | error e s => cases h

/-- What fails at the beginning fails as a whole. -/
theorem NoOperationFails.of_bind {x : Action σ α} {f : α → Action σ β} {s : σ}
    (h : NoOperationFails ((x >>= f).run s)) : NoOperationFails (x.run s) := by
  intro operation detail hresult
  refine h operation detail ?_
  rw [EStateM.run_bind]
  cases hrun : x.run s with
  | ok a s' =>
    rw [hrun] at hresult
    cases hresult
  | error e s' =>
    rw [hrun] at hresult
    exact congrArg Except.error (Except.error.inj hresult)

/-- Every run of an action keeps a relation between its two ends. -/
def Keeps (R : σ → σ → Prop) (x : Action σ α) : Prop := ∀ s, R s (stateOf (x.run s))

namespace Keeps

variable {R : σ → σ → Prop}

theorem pure (hrefl : ∀ s, R s s) (a : α) : Keeps R (pure a : Action σ α) := fun s => hrefl s

theorem bind (htrans : ∀ s s' s'', R s s' → R s' s'' → R s s'') {x : Action σ α}
    {f : α → Action σ β} (hx : Keeps R x) (hf : ∀ a, Keeps R (f a)) : Keeps R (x >>= f) := by
  intro s
  rw [EStateM.run_bind]
  have h := hx s
  cases hr : x.run s with
  | ok a s' =>
    rw [hr] at h
    exact htrans _ _ _ h (hf a s')
  | error e s' =>
    rw [hr] at h
    exact h

theorem forM (hrefl : ∀ s, R s s) (htrans : ∀ s s' s'', R s s' → R s' s'' → R s s'')
    {f : α → Action σ Unit} {l : List α} (hf : ∀ a ∈ l, Keeps R (f a)) : Keeps R (l.forM f) := by
  induction l with
  | nil => exact pure hrefl ()
  | cons a rest ih =>
    rw [List.forM_eq_forM, List.forM_cons]
    have hrest : Keeps R (rest.forM f) := ih fun b hb => hf b (List.mem_cons_of_mem _ hb)
    exact bind htrans (hf a (List.mem_cons_self ..)) fun _ => hrest

end Keeps

/-! ### Decisions -/

/-- On the states of the class `K`, which it does not leave, an action succeeds
    if and only if `P` holds. -/
def Decides (K : σ → Prop) (x : Action σ Unit) (P : Prop) : Prop :=
  ∀ s, K s → ((∃ s', x.run s = .ok () s') ↔ P) ∧ ∀ s', x.run s = .ok () s' → K s'

namespace Decides

variable {K : σ → Prop} {x y : Action σ Unit} {P Q : Prop}

theorem congr (h : Decides K x P) (hPQ : P ↔ Q) : Decides K x Q :=
  fun s hs => ⟨(h s hs).1.trans hPQ, (h s hs).2⟩

theorem seq (hx : Decides K x P) (hy : Decides K y Q) :
    Decides K (x >>= fun _ => y) (P ∧ Q) := by
  intro s hs
  obtain ⟨hP, hK⟩ := hx s hs
  refine ⟨⟨?_, ?_⟩, ?_⟩
  · rintro ⟨s'', h⟩
    obtain ⟨_, s', h₁, h₂⟩ := run_bind_ok.mp h
    exact ⟨hP.mp ⟨s', h₁⟩, (hy s' (hK s' h₁)).1.mp ⟨s'', h₂⟩⟩
  · rintro ⟨p, q⟩
    obtain ⟨s', h₁⟩ := hP.mpr p
    obtain ⟨s'', h₂⟩ := (hy s' (hK s' h₁)).1.mpr q
    exact ⟨s'', run_bind_ok.mpr ⟨(), s', h₁, h₂⟩⟩
  · intro s'' h
    obtain ⟨_, s', h₁, h₂⟩ := run_bind_ok.mp h
    exact (hy s' (hK s' h₁)).2 s'' h₂

theorem forM {f : α → Action σ Unit} {P : α → Prop} {l : List α}
    (h : ∀ a ∈ l, Decides K (f a) (P a)) : Decides K (l.forM f) (∀ a ∈ l, P a) := by
  induction l with
  | nil =>
    intro s hs
    refine ⟨⟨fun _ a ha => ?_, fun _ => ⟨s, rfl⟩⟩, fun s' h => ?_⟩
    · cases ha
    · cases h
      exact hs
  | cons a rest ih =>
    rw [List.forM_eq_forM, List.forM_cons]
    have hrest : Decides K (rest.forM f) (∀ b ∈ rest, P b) :=
      ih fun b hb => h b (List.mem_cons_of_mem _ hb)
    exact ((h a List.mem_cons_self).seq hrest).congr List.forall_mem_cons.symm

theorem of_run (hrun : ∀ s, K s → (P → x.run s = .ok () s) ∧ (¬P → ∃ e s', x.run s = .error e s')) :
    Decides K x P := by
  intro s hs
  by_cases hP : P
  · have h := (hrun s hs).1 hP
    refine ⟨⟨fun _ => hP, fun _ => ⟨s, h⟩⟩, fun s' h' => ?_⟩
    rw [h] at h'
    cases h'
    exact hs
  · obtain ⟨e, s', h⟩ := (hrun s hs).2 hP
    refine ⟨⟨?_, fun hP' => absurd hP' hP⟩, ?_⟩
    · rintro ⟨s'', h'⟩
      rw [h] at h'
      cases h'
    · intro s'' h'
      rw [h] at h'
      cases h'

end Decides

end BuildTargets
