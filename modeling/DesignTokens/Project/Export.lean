import DesignTokens.Figma.TextStyles
import DesignTokens.Json.Writer
import DesignTokens.Project.Work

/-!
# Files for design tools

Two documents are written for a tier: the tree of its tokens and the tree of its text
styles.
-/

namespace DesignTokens.Project

def documentText (tree : Object) : String :=
  Json.render .document (.object tree) ++ "\n"

/-- Writes the documents for `tokens` into a directory and gives their paths. -/
def exportTokens (dictionary : Dictionary) (tokens : List Token) (directory : Path)
    (dtcg : Bool) : Work (List Path) := do
  let keys := Tree.Keys.of dtcg
  let tree ← Work.reading fun _ => Traced.ofExcept (Figma.nested keys tokens)
  let treePath := directory / "tokens.json"
  Work.write treePath (documentText tree)
  let styles ← Work.reading fun _ => Traced.ofExcept (Figma.textStyles keys dictionary tokens)
  let stylesPath := directory / "typography.json"
  Work.write stylesPath (documentText styles)
  Work.note (.exported directory.shown)
  return [treePath, stylesPath]

end DesignTokens.Project
