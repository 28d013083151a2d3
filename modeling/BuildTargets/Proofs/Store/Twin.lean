/-
  BuildTargets/Proofs/Store/Twin.lean
  ===================================
  **What is noted of requests makes no difference.**

  A store notes the requests that it has accepted and numbers their operations.
  Two worlds that differ in these notes, and in their journals, are *twins*: every
  action that is made of requests and of changes of the host comes to the same on
  both, and leaves twins again (`RespectsTwins`).
-/
import BuildTargets.Proofs.Store

namespace BuildTargets

/-- Two stores that differ in what they note of requests only. -/
structure Store.Twin (s s' : Store) : Prop where
  containers : s'.containers = s.containers
  unreachable : s'.unreachable = s.unreachable
  failing : s'.failing = s.failing

theorem Store.Twin.apply {s s' : Store} (h : s.Twin s') (request : Request) :
    (s'.apply request).1 = (s.apply request).1 ∧
      (s.apply request).2.Twin (s'.apply request).2 := by
  obtain ⟨containers, requests, pending, lastId, unreachable, failing⟩ := s
  obtain ⟨containers', requests', pending', lastId', unreachable', failing'⟩ := s'
  obtain ⟨rfl, rfl, rfl⟩ := h
  unfold Store.apply Store.modify
  dsimp only
  cases hc : containers'.get? request.container with
  | none => cases request <;> exact ⟨rfl, rfl, rfl, rfl⟩
  | some c =>
    cases request with
    | addDevice n name device =>
      have hn : containers'.get? n = some c := hc
      dsimp only
      split
      · exact ⟨rfl, rfl, rfl, rfl⟩
      · rw [hn]
        exact ⟨rfl, rfl, rfl, rfl⟩
    | removeDevice n name =>
      have hn : containers'.get? n = some c := hc
      dsimp only
      split
      · rw [hn]
        exact ⟨rfl, rfl, rfl, rfl⟩
      · exact ⟨rfl, rfl, rfl, rfl⟩
    | stop n force =>
      have hn : containers'.get? n = some c := hc
      dsimp only
      rw [hn]
      exact ⟨rfl, rfl, rfl, rfl⟩
    | delete n => exact ⟨rfl, rfl, rfl, rfl⟩

theorem Store.Twin.answer {s s' : Store} (h : s.Twin s') (patience : Patience)
    (request : Request) : (s'.answer patience request).1 = (s.answer patience request).1 ∧
      (s.answer patience request).2.Twin (s'.answer patience request).2 := by
  obtain ⟨houtcome, htwin⟩ := h.apply request
  unfold Store.answer
  rw [h.failing]
  cases patience.cancelled with
  | true => exact ⟨rfl, h⟩
  | false =>
    simp only [Bool.false_eq_true, if_false]
    cases s.failing with
    | some detail => exact ⟨rfl, h⟩
    | none =>
      dsimp only
      generalize s.apply request = r at houtcome htwin
      generalize s'.apply request = r' at houtcome htwin
      obtain ⟨outcome, s₁⟩ := r
      obtain ⟨outcome', s₁'⟩ := r'
      cases houtcome
      cases outcome <;> exact ⟨rfl, htwin⟩

namespace World

structure Twin (w w' : World Store) : Prop where
  service : w.service.Twin w'.service
  tree : w'.tree = w.tree
  drivers : w'.drivers = w.drivers

theorem twin_asked (w : World Store) (request : Request) : w.Twin (w.asked request) :=
  ⟨⟨rfl, rfl, rfl⟩, rfl, rfl⟩

end World

/-- Two runs that come to the same on twins. -/
inductive Twins {α : Type} : EStateM.Result Failure (World Store) α →
    EStateM.Result Failure (World Store) α → Prop where
  | ok {a w w'} (h : w.Twin w') : Twins (.ok a w) (.ok a w')
  | error {e w w'} (h : w.Twin w') : Twins (.error e w) (.error e w')

namespace Twins

variable {α : Type} {r r' : EStateM.Result Failure (World Store) α}

theorem result (h : Twins r r') : resultOf r' = resultOf r := by
  cases h <;> rfl

theorem state (h : Twins r r') : (stateOf r).Twin (stateOf r') := by
  cases h with
  | ok h => exact h
  | error h => exact h

end Twins

/-- An action that comes to the same on twins. -/
def RespectsTwins {α : Type} (x : Action (World Store) α) : Prop :=
  ∀ w w', World.Twin w w' → Twins (x.run w) (x.run w')

namespace RespectsTwins

variable {α β : Type}

theorem bind {x : Action (World Store) α} {f : α → Action (World Store) β}
    (hx : RespectsTwins x) (hf : ∀ a, RespectsTwins (f a)) : RespectsTwins (x >>= f) := by
  intro w w' h
  have hfirst := hx w w' h
  rw [EStateM.run_bind, EStateM.run_bind]
  generalize x.run w = r at hfirst ⊢
  generalize x.run w' = r' at hfirst ⊢
  cases hfirst with
  | ok htwin => exact hf _ _ _ htwin
  | error htwin => exact .error htwin

theorem forM {f : α → Action (World Store) Unit} (hf : ∀ a, RespectsTwins (f a)) (l : List α) :
    RespectsTwins (l.forM f) := by
  induction l with
  | nil => exact fun w w' h => .ok h
  | cons a rest ih =>
    rw [List.forM_eq_forM, List.forM_cons]
    exact bind (hf a) fun _ => ih

theorem ofExcept (r : Except Failure Unit) :
    RespectsTwins (MonadExcept.ofExcept r : Action (World Store) Unit) := by
  intro w w' h
  cases r with
  | ok u => exact .ok h
  | error e => exact .error h

theorem change (c : HostChange) (explain : IoError → Failure) :
    RespectsTwins (World.change c explain) := by
  intro w w' h
  rw [World.run_change, World.run_change, h.tree]
  cases c.apply w.tree with
  | ok t => exact .ok ⟨h.service, rfl, h.drivers⟩
  | error e => exact .error h

theorem perform (ctx : Context) (request : Request) :
    RespectsTwins (World.perform ctx request) := by
  intro w w' h
  have hlogged : (w.service.logged request).Twin (w'.service.logged request) :=
    ⟨h.service.containers, h.service.unreachable, h.service.failing⟩
  obtain ⟨hresult, htwin⟩ := hlogged.answer ctx.patience request
  rw [World.run_perform, World.run_perform, h.service.unreachable, h.service.containers]
  split
  · exact .error h
  · split
    · generalize (w.service.logged request).answer ctx.patience request = r at hresult htwin ⊢
      generalize (w'.service.logged request).answer ctx.patience request = r' at hresult htwin ⊢
      obtain ⟨result, s⟩ := r
      obtain ⟨result', s'⟩ := r'
      cases hresult
      cases result with
      | ok u => exact .ok ⟨htwin, h.tree, h.drivers⟩
      | error e => exact .error ⟨htwin, h.tree, h.drivers⟩
    · exact .error h

end RespectsTwins

end BuildTargets
