/-
  BuildTargets/Repair/RenderNodes.lean
  ====================================
  **The repair of missing render nodes.**

  The card and render nodes of the host are passed into every target, so that
  accelerated tools work there.  A confined process cannot open these nodes and
  leaves them alone.
-/
import BuildTargets.Repair

namespace BuildTargets.Repair

variable {β : Type} [Service β]

def renderNodeDir : String := "/dev/dri"

/-- Whether a text is `stem` and one or more digits. -/
def isNumbered (stem name : List Char) : Bool :=
  stem.isPrefixOf name && name.drop stem.length ≠ [] && (name.drop stem.length).all (·.isDigit)

/-- Whether a name is that of a card or render node. -/
def isRenderNode (name : String) : Bool :=
  isNumbered "card".toList name.toList || isNumbered "renderD".toList name.toList

/-- Checks or fixes the render nodes of a container. -/
def keepRenderNodes (ctx : Context) (mode : Mode) (c : Container) : Action (World β) Unit := do
  if ctx.host.confined then return
  (← World.look (ctx.host.nodes · renderNodeDir isRenderNode)).forM
    (passNode ctx mode c "container is missing device node ")

def renderNodes : Repair β := ⟨"dri", false, keepRenderNodes⟩

end BuildTargets.Repair
