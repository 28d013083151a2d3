/-
  BuildTargets/Repair/Resources.lean
  ==================================
  **The repair of devices whose resource on the host is gone.**

  A device that depends on a host path which is no longer there keeps its
  container from starting.  Such a device is removed; the resource itself is
  never made again.
-/
import BuildTargets.Repair

namespace BuildTargets.Repair

variable {β : Type} [Service β]

def keepResource (ctx : Context) (mode : Mode) (c : Container) (name : String) (device : Device) :
    Action (World β) Unit :=
  match device.hostPath? with
  | none => pure ()
  | some path => do
    let present ← World.look (ctx.host.isPresent · path) fun e => .inspectionFailed c.name
      ("failed to query device source " ++ path ++ ": " ++ e.message)
    if present then return
    meet mode ⟨c.name, name, "device " ++ path ++ " does not exist on the host"⟩
      (World.perform ctx (.removeDevice c.name name))

/-- Checks or fixes the devices of a container, in the order of their names. -/
def keepResources (ctx : Context) (mode : Mode) (c : Container) : Action (World β) Unit :=
  c.devices.toList.forM fun e => keepResource ctx mode c e.1 e.2

def resources : Repair β := ⟨"devices", false, keepResources⟩

end BuildTargets.Repair
