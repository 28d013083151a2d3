/-
  BuildTargets/Repair/Standard.lean
  =================================
  **The repairs that every target gets, in their order.**
-/
import BuildTargets.Repair.Access
import BuildTargets.Repair.GraphicsDriver
import BuildTargets.Repair.RenderNodes
import BuildTargets.Repair.Resources

namespace BuildTargets.Repair

variable {β : Type} [Service β]

/-- Access to the container directory, missing resources, render nodes and the
    graphics driver, which `seeker` remembers. -/
def standard (seeker : String) : List (Repair β) :=
  [access, resources, renderNodes, graphicsDriver seeker]

end BuildTargets.Repair
