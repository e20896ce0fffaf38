import DesignTokens.Mode.Breakpoint
import DesignTokens.Mode.Names
import DesignTokens.Stylesheet.Rendering

/-!
# Dimensions by width

The narrowest breakpoint and the dimensions without a mode go into the root block.
Every wider breakpoint that has tokens gets one block of its own, by ascending
width, so that the widest one that applies is the last to be read.
-/

namespace DesignTokens.Stylesheet

/-- The block of one breakpoint, if it has tokens. -/
def widthBlock (dimensions : List Token) (dictionary : Dictionary) (options : RenderOptions)
    (axis : ModeAxis) (breakpoint : Breakpoint) : Traced (List Item) := do
  if breakpoint.name = axis.default then
    return []
  let named ← Mode.byName (axis.bucket dimensions breakpoint.name) breakpoint.name options.lead
  if named.isEmpty then
    return []
  let declarations ← options.declareAll dictionary named
  return [.media ("(min-width: " ++ breakpoint.minWidth ++ ")") options.selector declarations]

/-- The dimension tokens among `tokens`. -/
def widthPart (tokens : List Token) (dictionary : Dictionary) (options : RenderOptions)
    (table : List Breakpoint) : Traced Part := do
  let axis ← Breakpoint.axis table
  let dimensions := tokens.filter fun token => token.type == some "dimension"
  let unmoded ← options.declareOwn dictionary (axis.unmoded dimensions)
  let base ← Mode.byName (axis.bucket dimensions axis.default) axis.default options.lead
  let baseDeclarations ← options.declareAll dictionary base
  let blocks ← (Breakpoint.ascending table).mapM
    (widthBlock dimensions dictionary options axis)
  return ⟨unmoded ++ baseDeclarations, blocks.flatten⟩

end DesignTokens.Stylesheet
