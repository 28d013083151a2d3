/-
  BuildTargets/Container.lean
  ===========================
  **Containers as the service reports them, and build targets.**

  A container has a name, a status, configuration tags, devices and at times
  an address.  A *build target* is a container that carries two tags, its
  architecture and its framework; all other containers belong to somebody else.
-/
import BuildTargets.Device

namespace BuildTargets

/-- The state that a container is in. -/
inductive Status where
  | stopped
  | running
  | frozen
  /-- Any other state, as reported. -/
  | other (text : String)
deriving DecidableEq, Repr, Inhabited

namespace Status

/-- The state that a report names; the case of ASCII letters does not count. -/
def ofText (text : String) : Status :=
  let lower := text.toList.map Char.toLower
  if lower = "stopped".toList then stopped
  else if lower = "running".toList then running
  else if lower = "frozen".toList then frozen
  else other text

def text : Status → String
  | stopped => "Stopped"
  | running => "Running"
  | frozen => "Frozen"
  | other text => text

end Status

/-- One container. -/
structure Container where
  name : String
  status : Status
  /-- Configuration tags, such as `user.*` and `security.*`. -/
  config : Dict String String
  /-- The devices of the container itself, by their names. -/
  devices : Dict String Device
  /-- The address of its first network interface, if it has one. -/
  ipv4 : Option String
deriving DecidableEq, Inhabited

/-- How a build target is listed. -/
structure Target where
  name : String
  architecture : String
  framework : String
deriving DecidableEq, Repr, Inhabited

namespace Container

/-- The tag with the architecture of a build target. -/
def architectureTag : String := "user.click-architecture"

def frameworkTag : String := "user.click-framework"

/-- The build target that a container is, if it carries both tags. -/
def target? (c : Container) : Option Target :=
  match c.config.get? architectureTag, c.config.get? frameworkTag with
  | some architecture, some framework => some ⟨c.name, architecture, framework⟩
  | _, _ => none

def isTarget (c : Container) : Bool := c.target?.isSome

/-- Whether the container has a device of this name. -/
def hasDevice (c : Container) (name : String) : Bool := c.devices.contains name

end Container

end BuildTargets
