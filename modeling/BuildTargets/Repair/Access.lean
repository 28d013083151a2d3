/-
  BuildTargets/Repair/Access.lean
  ===============================
  **The repair of container directories that cannot be read.**

  Tools read files straight out of the directory of a container on the host, so
  everybody has to be able to read and enter it.  The directory may be a link
  to somewhere else; what counts are the permission bits of the directory it
  leads to.
-/
import BuildTargets.Repair

namespace BuildTargets.Repair

variable {β : Type}

/-- The permission bits of a directory that everybody can read. -/
def accessibleMode : Nat := 0o755

/-- The permission bits among the bits of a mode. -/
def permissionBits (mode : Nat) : Nat := mode % 0o10000

def octal (n : Nat) : String := String.ofList (Nat.toDigits 8 n)

def cannotQuery (container : String) (path : RawText) (e : IoError) : Failure :=
  .inspectionFailed container
    ("failed to query access permissions of " ++ path.shown ++ ": " ++ e.message)

/-- The path of the directory of a container, a link resolved. -/
def resolveDir (ctx : Context) (container : String) : Action (World β) RawText := do
  let path := ctx.host.path (ctx.host.dirOf container)
  match ← World.look (·.linkStat path) (cannotQuery container path) with
  | (_, .link _) =>
    World.look (·.realPath path) fun e => .inspectionFailed container
      ("failed to read container link " ++ path ++ ": " ++ e.message)
  | (_, _) => return path

/-- Checks or fixes the permission bits of the directory of a container. -/
def keepAccess (ctx : Context) (mode : Mode) (c : Container) : Action (World β) Unit := do
  let path ← resolveDir ctx c.name
  let (_, node) ← World.look (·.stat path) (cannotQuery c.name path)
  let bits := permissionBits node.mode
  if !node.isDir then throw (.inspectionFailed c.name (path.shown ++ " is not a directory"))
  if bits = accessibleMode then return
  meet mode
    ⟨c.name, path.shown,
      "wrong directory permissions " ++ octal bits ++ ", container rootfs is not accessible"⟩
    (World.change (.chmod path accessibleMode) fun e => .repairFailed c.name
      ("failed to make " ++ path.shown ++ " readable: " ++ e.message))

def access : Repair β := ⟨"rootfs", true, keepAccess⟩

end BuildTargets.Repair
