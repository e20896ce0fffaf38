import DesignTokens.Error
import DesignTokens.Text.Blank

/-!
# Marked text on the console

Text on the console is marked up: a word in brackets opens a style, a slash in front
of it closes one, and neither is shown. A backslash takes the meaning from the
brackets that follow it. Only the plain text is computed here; a console without colors
shows nothing else.
-/

namespace DesignTokens.CommandLine

namespace Markup

/-- Text as it stands, or a tag without its brackets. -/
inductive Part where
  | text (content : List Char)
  | tag (content : List Char)
deriving DecidableEq, Repr

def opensTag (c : Char) : Bool :=
  ('a' ≤ c && c ≤ 'z') || c = '#' || c = '/' || c = '@'

/-- The tag at the start of the text, without its brackets, and what follows it. -/
def splitTag? : List Char → Option (List Char × List Char)
  | '[' :: c :: rest =>
    if opensTag c then
      let inner := rest.takeWhile fun d => d ≠ ']' && d ≠ '['
      match rest.drop inner.length with
      | ']' :: after => some (c :: inner, after)
      | _ => none
    else
      none
  | _ => none

/-- Plain text: a backslash before a bracket is not shown. -/
def unescape : List Char → List Char
  | '\\' :: '[' :: rest => '[' :: unescape rest
  | c :: rest => c :: unescape rest
  | [] => []

/-- The parts of marked text. Backslashes before a tag stand for half as many, and an
odd one makes text of the tag; `plain` holds the text before, last character first. -/
def parts : Nat → List Char → List Char → List Part
  | 0, plain, _ => [.text (unescape plain.reverse)]
  | _, plain, [] => [.text (unescape plain.reverse)]
  | budget + 1, plain, c :: rest =>
    let slashes := ((c :: rest).takeWhile (· = '\\')).length
    match splitTag? ((c :: rest).drop slashes) with
    | some (tag, after) =>
      let before := [Part.text (unescape plain.reverse), .text (List.replicate (slashes / 2) '\\')]
      let own := if slashes % 2 = 0 then Part.tag tag else .text ('[' :: tag ++ [']'])
      before ++ own :: parts budget [] after
    | none => parts budget (c :: plain) rest

/-- The name of a style: what stands before an equals sign, in lower case. -/
def styleName (tag : List Char) : String :=
  Text.trim (String.ofList ((tag.takeWhile (· ≠ '=')).map Char.toLower))

/-- The list without the first occurrence of `name`. -/
def close? (name : String) (opened : List String) : Option (List String) :=
  if name.isEmpty then
    match opened with
    | [] => none
    | _ :: others => some others
  else if name ∈ opened then
    some (opened.erase name)
  else
    none

/-- The text that is shown; `opened` holds the styles that are open, last first. -/
def shown (opened : List String) : List Part → Except Error (List Char)
  | [] => .ok []
  | .text content :: rest => (content ++ ·) <$> shown opened rest
  | .tag ('/' :: tag) :: rest =>
    match close? (styleName tag) opened with
    | some others => shown others rest
    | none => .error (.shape (.unopenedStyle (String.ofList ('/' :: tag))))
  | .tag tag :: rest => shown (styleName tag :: opened) rest

/-- The text that a console shows for marked text. -/
def plainText (text : String) : Except Error String :=
  let chars := text.toList
  String.ofList <$> shown [] (parts chars.length [] chars)

end Markup

end DesignTokens.CommandLine
