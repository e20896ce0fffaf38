import DesignTokens.Text.Stretch

/-!
# Property names

A token is declared under one flat name of lower case words joined by hyphens. The
words of its path are found at every character that is neither an ASCII letter nor
an ASCII digit, between a lower case letter or digit and a capital, and before the
last capital of a run that a lower case letter follows.
-/

namespace DesignTokens

/-- The names on the way from the root of a token tree to a token. -/
abbrev TokenPath := List String

namespace TokenPath

def dotted (path : TokenPath) : String :=
  ".".intercalate path

end TokenPath

namespace Name

def isWordChar (c : Char) : Bool :=
  c.isUpper || c.isLower || c.isDigit

/-- Puts a blank between a lower case letter or digit and a capital. -/
def splitBeforeCapital : List Char → List Char
  | a :: b :: rest =>
    if (a.isLower || a.isDigit) && b.isUpper then
      a :: ' ' :: splitBeforeCapital (b :: rest)
    else
      a :: splitBeforeCapital (b :: rest)
  | chars => chars

/-- Puts a blank before a capital that starts a word right after a capital. -/
def splitAfterCapitals : List Char → List Char
  | a :: b :: c :: rest =>
    if a.isUpper && b.isUpper && c.isLower then
      a :: ' ' :: splitAfterCapitals (b :: c :: rest)
    else
      a :: splitAfterCapitals (b :: c :: rest)
  | chars => chars

/-- The words of a text, in lower case. -/
def words (chars : List Char) : List (List Char) :=
  ((Text.stretches (fun c => !isWordChar c) (splitAfterCapitals (splitBeforeCapital chars))).filter
    fun word => !word.isEmpty).map (List.map Char.toLower)

/-- The words of a text, joined by hyphens. -/
def kebab (text : String) : String :=
  String.ofList (['-'].intercalate (words text.toList))

/-- The property name of a token path, without the two hyphens of a declaration. A
`lead` that is not empty comes before the path. -/
def ofPath (path : TokenPath) (lead : Option String) : String :=
  let parts := match lead with
    | some first => if first.isEmpty then path else first :: path
    | none => path
  kebab (" ".intercalate parts)

example : kebab "color primaryText" = "color-primary-text" := by decide +kernel

example : kebab "XMLHttpRequest2Go" = "xml-http-request2-go" := by decide +kernel

end Name

end DesignTokens
