/-!
# Stylesheet documents

A document is a list of items: comments, statements and blocks with declarations and
further items inside. Text is made only at the end. Every level is indented by two
spaces, and blank lines stand between the items of a document.
-/

namespace DesignTokens.Stylesheet

structure Declaration where
  property : String
  value : String
deriving DecidableEq, Repr

namespace Declaration

/-- The declaration of a custom property. -/
def custom (name value : String) : Declaration := ⟨"--" ++ name, value⟩

end Declaration

inductive Item where
  | comment (text : String)
  | statement (text : String)
  | block (selector : String) (declarations : List Declaration) (children : List Item)
deriving Repr, Inhabited

/-- The blanks in front of a line; a depth below zero has none. -/
def indentation (depth : Int) : String :=
  String.ofList (List.replicate (2 * depth.toNat) ' ')

def Declaration.render (depth : Int) (declaration : Declaration) : String :=
  indentation depth ++ declaration.property ++ ": " ++ declaration.value ++ ";"

namespace Item

/-- A block whose content holds under a condition. -/
def media (condition selector : String) (declarations : List Declaration) : Item :=
  .block ("@media " ++ condition) [] [.block selector declarations []]

mutual

def render (depth : Int) : Item → String
  | .comment text => indentation depth ++ "/* " ++ text ++ " */"
  | .statement text => indentation depth ++ text ++ ";"
  | .block selector declarations children =>
    "\n".intercalate
      ((indentation depth ++ selector ++ " \x7b") ::
        declarations.map (Declaration.render (depth + 1)) ++
        renderAll (depth + 1) children ++ [indentation depth ++ "\x7d"])
termination_by structural item => item

def renderAll (depth : Int) : List Item → List String
  | [] => []
  | item :: rest => item.render depth :: renderAll depth rest
termination_by structural items => items

end

end Item

/-- The comment at the head of every generated file. -/
def fileHeader : String :=
  "/**\n * Do not edit directly, this file was auto-generated.\n */\n\n"

/-- Items under a header. The header stands alone if the items make no text. -/
def documentText (header : String) (items : List Item) : String :=
  let body := "\n\n".intercalate (Item.renderAll 0 items)
  if body.isEmpty then header else header ++ body ++ "\n"

/-- What one kind of token adds to a document: declarations of the root block and
blocks that hold under a condition. -/
structure Part where
  root : List Declaration
  conditional : List Item

namespace Part

def append (first second : Part) : Part :=
  ⟨first.root ++ second.root, first.conditional ++ second.conditional⟩

instance : Append Part := ⟨append⟩

/-- The root block, then the conditional ones. -/
def items (part : Part) (selector : String) : List Item :=
  .block selector part.root [] :: part.conditional

end Part

end DesignTokens.Stylesheet
