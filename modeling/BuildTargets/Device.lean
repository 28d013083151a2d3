/-
  BuildTargets/Device.lean
  ========================
  **Devices of a container.**

  A device has a kind and a bag of properties.  The container service reports
  it as one flat map with the kind under `type`, and takes it as the kind and a
  list of `key=value` arguments.  `hostPath?` is the resource of the host that
  a device cannot do without, `passThrough` the device that gives a container a
  character device node of the host.
-/
import BuildTargets.Dict
import BuildTargets.Text.Blank

namespace BuildTargets

/-- What a device is. -/
inductive DeviceKind where
  | disk
  | unixChar
  | nic
  /-- Any other kind, by its name. -/
  | other (name : String)
deriving DecidableEq, Repr, Inhabited

namespace DeviceKind

def ofName (name : String) : DeviceKind :=
  if name = "disk" then disk
  else if name = "unix-char" then unixChar
  else if name = "nic" then nic
  else other name

def name : DeviceKind → String
  | disk => "disk"
  | unixChar => "unix-char"
  | nic => "nic"
  | other name => name

/-- No name is lost by reading it as a kind. -/
@[simp] theorem name_ofName (s : String) : (ofName s).name = s := by
  rw [ofName]
  split
  · next h => exact h.symm
  · split
    · next h => exact h.symm
    · split
      · next h => exact h.symm
      · rfl

end DeviceKind

/-- A device: its kind and the properties that the kind gives a meaning. -/
structure Device where
  kind : DeviceKind
  properties : Dict String String
deriving DecidableEq, Inhabited

namespace Device

/-- A device of a kind with some properties. -/
def make (kind : DeviceKind) (properties : List (String × String)) : Device :=
  ⟨kind, Dict.ofList properties⟩

/-- The device that a flat map reports: its kind is under `type`, and a map
    without it reports a kind without a name. -/
def ofReport (report : Dict String String) : Device where
  kind := match report.get? "type" with
    | some name => .ofName name
    | none => .other ""
  properties := report.erase "type"

def property? (d : Device) (key : String) : Option String := d.properties.get? key

/-- Whether the container starts without the device. -/
def isOptional (d : Device) : Bool := d.property? "optional" = some "true"

/-- The properties as `key=value` arguments, in the order of the keys. -/
def arguments (d : Device) : List String := d.properties.toList.map fun e => e.1 ++ "=" ++ e.2

/-- A path without the slashes in front. -/
def withoutLeadingSlashes (path : String) : String :=
  String.ofList (path.toList.dropWhile (· = '/'))

/-- The path on the host that a device depends on, if it claims one.  An
    optional device claims nothing.  A disk claims its source, and a character
    device the node at its path unless it gives the numbers of the node
    itself. -/
def hostPath? (d : Device) : Option String :=
  if d.isOptional then none
  else match d.kind with
    | .disk => (d.property? "source").filter (· ≠ "")
    | .unixChar =>
      if d.properties.contains "major" && d.properties.contains "minor" then none
      else ((d.property? "path").filter (· ≠ "")).map fun path => "/" ++ withoutLeadingSlashes path
    | _ => none

def videoGroup : String := "44"

/-- The device that passes a character device node of the host into a
    container, at the same path. -/
def passThrough (node : String) : Device :=
  make .unixChar [("path", withoutLeadingSlashes node), ("gid", videoGroup)]

end Device

end BuildTargets
