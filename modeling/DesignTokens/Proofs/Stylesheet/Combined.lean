import DesignTokens.Proofs.Stylesheet.Accounts
import DesignTokens.Proofs.Stylesheet.Closure
import DesignTokens.Proofs.Stylesheet.TextStyles

/-!
# The tokens of the combined document

The combined document has every token once: a text style is a class, every other token is a
source of one declaration, and there is nothing else that declares a property of its own.
-/

namespace DesignTokens.Stylesheet

open scoped List

namespace Assembly

variable {assembly : Assembly} {tokens : List Token} {dictionary : Dictionary}
  {items : List Item}

def poster : Dictionary where
  tokens :=
    [⟨["color", "light", "ink"], "color-light-ink", some "color", .text "#000", .text "#000",
        some "light", none, [], none⟩,
      ⟨["color", "dark", "ink"], "color-dark-ink", some "color", .text "#fff", .text "#fff",
        some "dark", none, [], none⟩,
      ⟨["duration", "short"], "duration-short", some "duration", .text "200ms", .text "200ms",
        none, none, [], none⟩,
      ⟨["typography", "title"], "typography-title", some "typography",
        .object [("fontWeight", .text "bold")], .object [("fontWeight", .text "bold")], none, none,
        [], none⟩]
  nodup_paths := by decide

end Assembly

end DesignTokens.Stylesheet
