/-
  BuildTargets/Repair/GraphicsDriver.lean
  =======================================
  **The repair of the graphics driver in a container.**

  While the host runs the Nvidia kernel driver, a container needs the matching
  libraries and the device nodes of the driver.  Three things are kept as they
  have to be: the device that mounts the libraries, the configuration that
  makes the loader find them, and the nodes.  A host without the driver, or
  without its libraries, needs none of them.

  The loaded driver cannot change without a restart, so once it is found it is
  remembered; a look that does not find it is not.
-/
import BuildTargets.Repair
import BuildTargets.Text.Blank

namespace BuildTargets

namespace Driver

/-- The file with the version of the loaded driver. -/
def versionFile : String := "/sys/module/nvidia/version"

def librariesOf (version : String) : String := "/usr/lib/nvidia-" ++ version

/-- The driver that the contents of the version file name.  The text, without
    blank ends, has to be one line that starts with a digit; the version is its
    leading number. -/
def ofVersion? (text : String) : Option Driver :=
  let line := (Text.trim text).toList
  let version := String.ofList (line.takeWhile (·.isDigit))
  if version = "" || line.contains '\n' then none else some ⟨version, librariesOf version⟩

/-- Finds the loaded driver on the host; nothing if its version is not
    recognised or its libraries are missing. -/
def find? (host : HostView) (t : Tree) : Except IoError (Option Driver) := do
  match ofVersion? (← t.readText (host.path versionFile)) with
  | none => return none
  | some driver => return if ← host.isPresent t driver.libraries then some driver else none

end Driver

/-- The loaded driver as `seeker` knows it: remembered, or looked for. -/
def Driver.recall {β : Type} (host : HostView) (seeker : String) :
    Action (World β) (Option Driver) := do
  let w ← get
  match w.drivers.get? seeker with
  | some driver => return some driver
  | none =>
    match ← World.look (find? host) with
    | none => return none
    | some driver =>
      set { w with drivers := w.drivers.insert seeker driver }
      return some driver

namespace Repair

variable {β : Type} [Service β]

/-- The name of the device that mounts the libraries. -/
def libraryDevice : String := "nv-bin"

def libraryMount : String := "/usr/lib/nvidia-gl"

/-- The device that mounts the libraries of a driver. -/
def libraryMountOf (driver : Driver) : Device :=
  .make .disk [("source", driver.libraries), ("path", libraryMount), ("recursive", "true")]

/-- Checks or fixes the mount of the libraries.  One with another source is
    replaced. -/
def keepLibraries (ctx : Context) (mode : Mode) (c : Container) (driver : Driver) :
    Action (World β) Unit :=
  let add := World.perform ctx (.addDevice c.name libraryDevice (libraryMountOf driver))
  match c.devices.get? libraryDevice with
  | some device =>
    if device.property? "source" = some driver.libraries then pure ()
    else meet mode
      ⟨c.name, libraryDevice,
        "Nvidia binary directory is not pointing to the currently used one"⟩
      (do World.perform ctx (.removeDevice c.name libraryDevice); add)
  | none => meet mode ⟨c.name, libraryDevice, "Nvidia binary directory is not mounted"⟩ add

/-- The loader configuration, seen from the root file system of a
    container. -/
def loaderConfig : String := "etc/ld.so.conf.d/01-nvidia.conf"

def loaderConfigText : String := libraryMount ++ "\n"

/-- The permission bits of the loader configuration. -/
def loaderConfigMode : Nat := 0o664

/-- The logical path of the loader configuration of a container. -/
def loaderConfigPath (host : HostView) (container : String) : String :=
  Path.join (host.rootfsOf container) loaderConfig

def keepLoaderConfig (ctx : Context) (mode : Mode) (c : Container) : Action (World β) Unit := do
  let logical := loaderConfigPath ctx.host c.name
  let present ← World.look (ctx.host.isPresent · logical) fun e => .inspectionFailed c.name
    ("failed to query " ++ logical ++ ": " ++ e.message)
  if present then return
  let path := ctx.host.path logical
  let cannotWrite (e : IoError) : Failure :=
    .repairFailed c.name ("failed to write " ++ logical ++ ": " ++ e.message)
  meet mode ⟨c.name, logical, "Nvidia loader config file is missing"⟩ (do
    World.change (.write path (Text.encode loaderConfigText)) cannotWrite
    World.change (.chmod path loaderConfigMode) cannotWrite)

def driverNodeDir : String := "/dev"

/-- Whether a name is that of a node of the driver. -/
def isDriverNode (name : String) : Bool := "nvidia".toList.isPrefixOf name.toList

def keepDriverNodes (ctx : Context) (mode : Mode) (c : Container) : Action (World β) Unit := do
  (← World.look (ctx.host.nodes · driverNodeDir isDriverNode)).forM
    (passNode ctx mode c "container is missing Nvidia device ")

/-- Checks or fixes the graphics driver of a container. -/
def keepDriver (seeker : String) (ctx : Context) (mode : Mode) (c : Container) :
    Action (World β) Unit := do
  if !(← World.look (ctx.host.isPresent · Driver.versionFile)) then return
  match ← Driver.recall ctx.host seeker with
  | none => return
  | some driver =>
    keepLibraries ctx mode c driver
    keepLoaderConfig ctx mode c
    keepDriverNodes ctx mode c

/-- The repair of the graphics driver; `seeker` remembers the driver. -/
def graphicsDriver (seeker : String) : Repair β := ⟨"nvidia", false, keepDriver seeker⟩

end Repair

end BuildTargets
