/-
  BuildTargets/Repair.lean
  ========================
  **Repairs: keeping one aspect of a container as it has to be.**

  A repair has one routine for both of its uses.  In *check* mode it looks and
  reports the first drift it finds; in *fix* mode it does away with what check
  mode would have reported, and does nothing to a container without drift.

  A repair is run on one container by name or on all build targets.  `checkAll`
  and `fixAll` run a list of repairs, each on all targets before the next.
-/
import BuildTargets.World

namespace BuildTargets

/-- What a repair is run for. -/
inductive Mode where
  | check
  | fix
deriving DecidableEq, Repr, Inhabited

/-- The upkeep of one aspect of a container. -/
structure Repair (β : Type) where
  name : String
  /-- Fixing needs root on the host. -/
  needsRoot : Bool
  run : Context → Mode → Container → Action (World β) Unit

namespace Repair

variable {β : Type}

/-! ### Drift, and how the two modes meet it -/

/-- Meets a drift: check mode reports it, fix mode remedies it. -/
def meet (mode : Mode) (drift : Drift) (remedy : Action (World β) Unit) : Action (World β) Unit :=
  match mode with
  | .check => throw (.drift drift)
  | .fix => remedy

/-- Passes a node of the host into a container that lacks it. -/
def passNode [Service β] (ctx : Context) (mode : Mode) (c : Container) (reason : String)
    (node : String) : Action (World β) Unit :=
  if c.hasDevice node then pure ()
  else meet mode ⟨c.name, node, reason ++ node⟩
    (World.perform ctx (.addDevice c.name node (.passThrough node)))

/-! ### Running repairs -/

variable [Service β]

def onContainer (r : Repair β) (ctx : Context) (mode : Mode) (name : String) :
    Action (World β) Unit := do
  r.run ctx mode (← World.onService (Service.container name))

/-- Runs a repair on all build targets, up to the first failure. -/
def onTargets (r : Repair β) (ctx : Context) (mode : Mode) : Action (World β) Unit := do
  (← World.onService Service.targets).forM (r.run ctx mode)

omit [Service β] in
/-- Refuses to go on if a repair needs root and the process is not
    privileged. -/
def authorize (repairs : List (Repair β)) (privileged : Bool) : Except Failure Unit :=
  let needing := repairs.filter (·.needsRoot)
  if privileged || needing.isEmpty then .ok ()
  else .error (.permissionDenied
    ("fixing " ++ ", ".intercalate (needing.map (·.name)) ++ " requires root privileges"))

def checkAll (repairs : List (Repair β)) (ctx : Context) : Action (World β) Unit :=
  repairs.forM fun r => r.onTargets ctx .check

def fixAll (repairs : List (Repair β)) (ctx : Context) : Action (World β) Unit := do
  MonadExcept.ofExcept (authorize repairs ctx.privileged)
  repairs.forM fun r => r.onTargets ctx .fix

def checkOne (repairs : List (Repair β)) (ctx : Context) (name : String) :
    Action (World β) Unit :=
  repairs.forM fun r => r.onContainer ctx .check name

def fixOne (repairs : List (Repair β)) (ctx : Context) (name : String) :
    Action (World β) Unit := do
  MonadExcept.ofExcept (authorize repairs ctx.privileged)
  repairs.forM fun r => r.onContainer ctx .fix name

end Repair

end BuildTargets
