/-
  BuildTargets/Proofs/Repair/Runs.lean
  ====================================
  **What the service keeps, every run keeps.**

  The library is used in eight ways (`IsRun`): the standard repairs are checked or
  made, on all targets or on one container, and the simple commands ask for
  containers or destroy one.  Whatever they do to the service they do by queries and
  by requests that are made and waited for.  So a relation between states of the
  service that these keep, and that can be composed, is kept by every run
  (`Service.Keeping.run`).
-/
import BuildTargets.Fleet
import BuildTargets.Proofs.Repair.Script

namespace BuildTargets

open Repair

/-- The runs of the standard repairs and of the simple commands, whatever service they
    are for. -/
inductive IsRun (ctx : Context) (seeker : String) :
    {α : Type} → ((β : Type) → [Service β] → Action (World β) α) → Prop where
  | checkAll : IsRun ctx seeker fun _ _ => checkAll (standard seeker) ctx
  | fixAll : IsRun ctx seeker fun _ _ => fixAll (standard seeker) ctx
  | checkOne (name : String) : IsRun ctx seeker fun _ _ => checkOne (standard seeker) ctx name
  | fixOne (name : String) : IsRun ctx seeker fun _ _ => fixOne (standard seeker) ctx name
  | list : IsRun ctx seeker fun _ _ => World.onService Fleet.list
  | hasContainer (name : String) :
      IsRun ctx seeker fun _ _ => World.onService (Fleet.hasContainer name)
  | status (name : String) : IsRun ctx seeker fun _ _ => World.onService (Fleet.status name)
  | destroy (name : String) :
      IsRun ctx seeker fun _ _ => World.onService (Fleet.destroy ctx.patience name)

variable {β α : Type} [Service β]

/-! ### Requests in a world -/

/-- Once a request is submitted, to make it in a world is to make it of the service
    and to enter it in the journal. -/
theorem World.run_perform_of_submit {ctx : Context} {request : Request} {w : World β}
    {op : Operation} {s : β} (hsubmit : (Service.submit request).run w.service = .ok op s) :
    (World.perform ctx request).run w =
      match (Service.perform request ctx.patience).run w.service with
      | .ok u s => .ok u { w with service := s, journal := w.journal ++ [.asked request] }
      | .error e s => .error e { w with service := s, journal := w.journal ++ [.asked request] } := by
  have henter (w : World β) : (World.enter (.asked request)).run w =
      .ok () { w with journal := w.journal ++ [.asked request] } := rfl
  rw [World.perform, Service.perform, EStateM.run_bind, EStateM.run_bind, World.run_onService,
    hsubmit]
  dsimp only
  rw [EStateM.run_bind, henter]
  dsimp only
  rw [World.run_onService]
  dsimp only
  cases (Service.settle op ctx.patience).run s <;> rfl

theorem World.service_perform (ctx : Context) (request : Request) (w : World β) :
    (stateOf ((World.perform ctx request).run w)).service =
      stateOf ((Service.perform request ctx.patience).run w.service) := by
  cases hsubmit : (Service.submit request).run w.service with
  | ok op s =>
    rw [World.run_perform_of_submit hsubmit]
    cases (Service.perform request ctx.patience).run w.service <;> rfl
  | error e s =>
    rw [World.perform, Service.perform, EStateM.run_bind, EStateM.run_bind, World.run_onService,
      hsubmit]
    rfl

/-! ### Relations that are kept -/

/-- Every run of an action in a world keeps a relation between states of the
    service. -/
def World.KeepsService (R : β → β → Prop) (x : Action (World β) α) : Prop :=
  Keeps (fun w w' : World β => R w.service w'.service) x

/-- A relation between states of the service that can be composed, and that queries
    keep and requests that are made and waited for. -/
structure Service.Keeping (R : β → β → Prop) : Prop where
  refl : ∀ s, R s s
  trans : ∀ s s' s'', R s s' → R s' s'' → R s s''
  containers : Keeps R (Service.containers : Action β (List Container))
  container : ∀ name, Keeps R (Service.container name : Action β Container)
  perform : ∀ request patience, Keeps R (Service.perform request patience : Action β Unit)

namespace Service.Keeping

variable {R : β → β → Prop} {ctx : Context} {mode : Mode} {seeker : String} {r : Repair β}

omit [Service β] in
theorem onService {x : Action β α} (h : Keeps R x) :
    World.KeepsService R (World.onService x) := by
  intro w
  have hkept := h w.service
  rw [World.run_onService]
  cases hrun : x.run w.service with
  | ok a s =>
    rw [hrun] at hkept
    exact hkept
  | error e s =>
    rw [hrun] at hkept
    exact hkept

variable (h : Service.Keeping R)

include h

theorem bind {x : Action β α} {γ : Type} {f : α → Action β γ} (hx : Keeps R x)
    (hf : ∀ a, Keeps R (f a)) : Keeps R (x >>= f) := Keeps.bind h.trans hx hf

theorem pure (a : α) : Keeps R (Pure.pure a : Action β α) := Keeps.pure h.refl a

/-- A run that is followed by another, in a world. -/
theorem seq {γ : Type} {x : Action (World β) α} {f : α → Action (World β) γ}
    (hx : World.KeepsService R x)
    (hf : ∀ a, World.KeepsService R (f a)) :
    World.KeepsService R (x >>= f) :=
  Keeps.bind (R := fun w w' : World β => R w.service w'.service)
    (fun _ _ _ h₁ h₂ => h.trans _ _ _ h₁ h₂) hx hf

theorem forM {l : List α} {f : α → Action (World β) Unit}
    (hf : ∀ a ∈ l, World.KeepsService R (f a)) :
    World.KeepsService R (l.forM f) :=
  Keeps.forM (R := fun w w' : World β => R w.service w'.service) (fun w => h.refl w.service)
    (fun _ _ _ h₁ h₂ => h.trans _ _ _ h₁ h₂) hf

theorem ofExcept (allowed : Except Failure Unit) :
    World.KeepsService R
      (MonadExcept.ofExcept allowed : Action (World β) Unit) := by
  intro w
  cases allowed <;> exact h.refl w.service

theorem change (change : HostChange) (explain : IoError → Failure) :
    World.KeepsService R (World.change change explain) := by
  intro w
  rw [World.run_change]
  split <;> exact h.refl w.service

/-! ### Repairs -/

theorem make (m : Move) :
    World.KeepsService R (m.make ctx) := by
  cases m with
  | ask request =>
    intro w
    change R w.service (stateOf ((World.perform ctx request).run w)).service
    rw [World.service_perform]
    exact h.perform request ctx.patience w.service
  | reshape changes explain => exact h.forM fun change _ => h.change change explain

theorem runOn (hr : r ∈ standard seeker) (c : Container) :
    World.KeepsService R (r.run ctx mode c) := by
  intro w
  obtain ⟨s, w₀, hrun, hservice, -, -⟩ := run_follows ctx mode w c hr
  have hfollow : World.KeepsService R (s.follow ctx mode) :=
    Script.keeps_follow (R := fun w w' : World β => R w.service w'.service)
      (fun w => h.refl w.service) (fun _ _ _ h₁ h₂ => h.trans _ _ _ h₁ h₂) s
      fun m _ => h.make m
  change R w.service (stateOf ((r.run ctx mode c).run w)).service
  rw [hrun, ← hservice]
  exact hfollow w₀

theorem onTargets (hr : r ∈ standard seeker) :
    World.KeepsService R (r.onTargets ctx mode) := by
  have htargets : Keeps R (Service.targets : Action β (List Container)) :=
    h.bind h.containers fun cs => h.pure _
  exact h.seq (onService htargets) fun cs => h.forM fun c _ => h.runOn hr c

theorem onContainer (hr : r ∈ standard seeker) (name : String) :
    World.KeepsService R (r.onContainer ctx mode name) :=
  h.seq (onService (h.container name)) fun c => h.runOn hr c

/-! ### Commands -/

theorem destroy (patience : Patience) (name : String) :
    Keeps R (Fleet.destroy patience name : Action β Unit) := by
  refine h.bind (h.container name) fun c => ?_
  have hdelete : Keeps R (Service.perform (.delete name) patience : Action β Unit) :=
    h.perform _ patience
  split
  · exact h.bind (h.perform _ patience) fun _ => hdelete
  · exact hdelete

/-- Whatever queries and requests keep, every run keeps. -/
theorem run {x : (β : Type) → [Service β] → Action (World β) α} (hx : IsRun ctx seeker x) :
    World.KeepsService R (x β) := by
  cases hx with
  | checkAll => exact h.forM fun r hr => h.onTargets hr
  | fixAll => exact h.seq (h.ofExcept _) fun _ => h.forM fun r hr => h.onTargets hr
  | checkOne name => exact h.forM fun r hr => h.onContainer hr name
  | fixOne name => exact h.seq (h.ofExcept _) fun _ => h.forM fun r hr => h.onContainer hr name
  | list => exact onService (h.bind h.containers fun cs => h.pure _)
  | hasContainer name => exact onService (h.bind h.containers fun cs => h.pure _)
  | status name => exact onService (h.bind (h.container name) fun c => h.pure _)
  | destroy name => exact onService (h.destroy ctx.patience name)

end Service.Keeping

end BuildTargets
