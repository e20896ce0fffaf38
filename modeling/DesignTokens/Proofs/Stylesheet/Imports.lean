import Mathlib.Data.List.Basic
import DesignTokens.Proofs.Text
import DesignTokens.Stylesheet.ImportSheet

/-!
# Imports of a stylesheet

A stylesheet imports a file where a statement says so, under the selectors of the blocks
around the statement. The imports can be taken from the items of a document or read from
the lines of its text, and both are the same if each statement, comment and selector
stands on a line of its own.
-/

namespace DesignTokens.Stylesheet

/-- An imported file, and the selectors of the blocks around the statement from the outside
in. -/
structure Import where
  conditions : List String
  file : String
deriving DecidableEq, Repr

/-! ## Imports of items -/

/-- The file that a statement imports. -/
def target? (statement : List Char) : Option String :=
  ((statement.dropPrefix? "@import './".toList).bind (List.dropSuffix? · ['\''])).map String.ofList

theorem target?_importOf (file : String) :
    target? ("@import './" ++ file ++ "'").toList = some file := by
  have hsplit : ("@import './" ++ file ++ "'").toList =
      "@import './".toList ++ (file.toList ++ ['\'']) := by simp
  have hquote : (file.toList ++ ['\'']).dropSuffix? ['\''] = some file.toList :=
    List.dropSuffix?_eq_some_iff.2 ⟨['\''], rfl, by simp⟩
  rw [target?, hsplit, List.dropPrefix?_append_of_beq _ (by simp), Option.bind_some, hquote,
    Option.map_some, String.ofList_toList]

namespace Item

mutual

/-- The imports of an item inside the blocks with the given selectors. -/
def imports (conditions : List String) : Item → List Import
  | .comment _ => []
  | .statement text => (target? text.toList).toList.map (Import.mk conditions)
  | .block selector _ children => importsAll (conditions ++ [selector]) children
termination_by structural item => item

def importsAll (conditions : List String) : List Item → List Import
  | [] => []
  | item :: rest => item.imports conditions ++ importsAll conditions rest
termination_by structural items => items

end

theorem importsAll_eq_flatMap (conditions : List String) (items : List Item) :
    importsAll conditions items = items.flatMap (imports conditions) := by
  induction items with
  | nil => rfl
  | cons item rest ih => rw [importsAll, ih, List.flatMap_cons]

variable {conditions : List String}

theorem mem_importsAll {items : List Item} {found : Import} :
    found ∈ importsAll conditions items ↔ ∃ item ∈ items, found ∈ item.imports conditions := by
  rw [importsAll_eq_flatMap, List.mem_flatMap]

@[simp]
theorem importsAll_append (first second : List Item) :
    importsAll conditions (first ++ second) =
      importsAll conditions first ++ importsAll conditions second := by
  simp [importsAll_eq_flatMap]

@[simp]
theorem imports_importOf (file : String) :
    (ImportSheet.importOf file).imports conditions = [⟨conditions, file⟩] := by
  rw [ImportSheet.importOf, imports, target?_importOf]
  rfl

@[simp]
theorem imports_mediaImport (condition file : String) :
    (ImportSheet.mediaImport condition file).imports conditions =
      [⟨conditions ++ ["@media " ++ condition], file⟩] := by
  simp [ImportSheet.mediaImport, imports, importsAll]

theorem importsAll_map {α : Type} {f : α → Item} {g : α → Import}
    (himports : ∀ x, (f x).imports conditions = [g x]) (xs : List α) :
    importsAll conditions (xs.map f) = xs.map g := by
  induction xs with
  | nil => rfl
  | cons x xs ih => rw [List.map_cons, importsAll, himports, ih, List.map_cons, List.singleton_append]

/-! ## Items that only import -/

/-- A selector that stands on a line of its own and begins there. -/
def IsSelector (selector : String) : Prop :=
  '\n' ∉ selector.toList ∧ ∃ c rest, selector.toList = c :: rest ∧ c ≠ ' '

theorem IsSelector.append {first second : String} (hfirst : IsSelector first)
    (hsecond : '\n' ∉ second.toList) : IsSelector (first ++ second) := by
  obtain ⟨hline, c, rest, hchars, hc⟩ := hfirst
  exact ⟨by simp [hline, hsecond], c, rest ++ second.toList, by simp [hchars], hc⟩

/-- An item of comments and of imports of files with a property, in any number of blocks. -/
inductive ImportsOnly (P : String → Prop) : Item → Prop where
  | comment {text : String} (hline : '\n' ∉ text.toList) : ImportsOnly P (.comment text)
  | importOf {file : String} (hfile : P file) : ImportsOnly P (ImportSheet.importOf file)
  | block {selector : String} {children : List Item} (hselector : IsSelector selector)
      (hchildren : ∀ child ∈ children, ImportsOnly P child) :
      ImportsOnly P (.block selector [] children)

variable {P Q : String → Prop} {item : Item}

theorem ImportsOnly.imp (hitem : item.ImportsOnly P) (himp : ∀ file, P file → Q file) :
    item.ImportsOnly Q := by
  induction hitem with
  | comment hline => exact .comment hline
  | importOf hfile => exact .importOf (himp _ hfile)
  | block hselector _ ih => exact .block hselector ih

theorem ImportsOnly.of_mem_imports (hitem : item.ImportsOnly P) {found : Import}
    (hfound : found ∈ item.imports conditions) : P found.file := by
  induction hitem generalizing conditions with
  | comment hline => simp [imports] at hfound
  | importOf hfile =>
      rw [imports_importOf, List.mem_singleton] at hfound
      exact hfound ▸ hfile
  | block hselector _ ih =>
      rw [imports, mem_importsAll] at hfound
      obtain ⟨child, hchild, hfound⟩ := hfound
      exact ih child hchild hfound

theorem importsOnly_mediaImport {condition file : String}
    (hcondition : '\n' ∉ condition.toList) (hfile : P file) :
    (ImportSheet.mediaImport condition file).ImportsOnly P := by
  have hmedia : IsSelector "@media " := ⟨by decide, '@', "media ".toList, by decide, by decide⟩
  apply ImportsOnly.block (hmedia.append hcondition)
  rw [List.forall_mem_singleton]
  exact .importOf hfile

end Item

/-! ## Imports of lines -/

/-- What a line does. -/
inductive Line where
  | imports (file : String)
  | opens (selector : String)
  | closes
  | other
deriving DecidableEq, Repr

/-- A line without the blanks in front of it: a statement ends with a semicolon, and the
head of a block with a brace. -/
def Line.read (line : List Char) : Line :=
  let written := line.dropWhile (· == ' ')
  match List.dropSuffix? written [';'], List.dropSuffix? written [' ', '\x7b'] with
  | some statement, _ => ((target? statement).map imports).getD .other
  | none, some selector => .opens (String.ofList selector)
  | none, none => if written = ['\x7d'] then .closes else .other

namespace Import

/-- The imports that lines make, inside the blocks that are open. -/
def ofLines (conditions : List String) : List (List Char) → List Import
  | [] => []
  | line :: rest =>
    match Line.read line with
    | .imports file => ⟨conditions, file⟩ :: ofLines conditions rest
    | .opens selector => ofLines (conditions ++ [selector]) rest
    | .closes => ofLines conditions.dropLast rest
    | .other => ofLines conditions rest

/-- The imports of a text. -/
def ofText (text : String) : List Import :=
  ofLines [] (Text.lines text)

end Import

theorem toList_indentation (depth : Int) :
    (indentation depth).toList = List.replicate (2 * depth.toNat) ' ' := by
  simp [indentation]

theorem newline_not_mem_indentation (depth : Int) : '\n' ∉ (indentation depth).toList := by
  simp [toList_indentation, List.mem_replicate]

theorem dropWhile_indentation (depth : Int) {c : Char} (hc : c ≠ ' ') (rest : List Char) :
    ((indentation depth).toList ++ c :: rest).dropWhile (· == ' ') = c :: rest := by
  rw [toList_indentation, List.dropWhile_append_of_pos (by simp [List.mem_replicate]),
    List.dropWhile_cons_of_neg (by simpa using hc)]

namespace Line

theorem dropSuffix?_append (chars suffix : List Char) :
    List.dropSuffix? (chars ++ suffix) suffix = some chars :=
  List.dropSuffix?_eq_some_iff.2 ⟨suffix, rfl, by simp⟩

theorem dropSuffix?_of_ne {last final : Char} (hne : last ≠ final) (chars before : List Char) :
    List.dropSuffix? (chars ++ [last]) (before ++ [final]) = none := by
  rw [Option.eq_none_iff_forall_ne_some]
  intro rest hrest
  obtain ⟨suffix, hsplit, hsuffix⟩ := List.dropSuffix?_eq_some_iff.1 hrest
  rw [eq_of_beq hsuffix, ← List.append_assoc] at hsplit
  exact hne (List.singleton_inj.1 (List.append_inj_right' hsplit rfl))

theorem read_importOf (depth : Int) (file : String) :
    read ((ImportSheet.importOf file).render depth).toList = .imports file := by
  have hline : ((ImportSheet.importOf file).render depth).toList =
      (indentation depth).toList ++ '@' :: (("import './" ++ file ++ "'").toList ++ [';']) := by
    simp [ImportSheet.importOf, Item.render]
  have hwritten : '@' :: (("import './" ++ file ++ "'").toList ++ [';']) =
      ("@import './" ++ file ++ "'").toList ++ [';'] := by simp
  rw [hline, read, dropWhile_indentation depth (by decide), hwritten, dropSuffix?_append]
  simp only [target?_importOf, Option.map_some, Option.getD_some]

theorem read_head (depth : Int) {selector : String} (hselector : Item.IsSelector selector) :
    read (indentation depth ++ selector ++ " \x7b").toList = .opens selector := by
  obtain ⟨-, c, rest, hchars, hc⟩ := hselector
  have hline : (indentation depth ++ selector ++ " \x7b").toList =
      (indentation depth).toList ++ c :: (rest ++ [' ', '\x7b']) := by simp [hchars]
  have hwritten : c :: (rest ++ [' ', '\x7b']) = (selector.toList ++ [' ']) ++ ['\x7b'] := by
    simp [hchars]
  have hopens : List.dropSuffix? ((selector.toList ++ [' ']) ++ ['\x7b']) [' ', '\x7b'] =
      some selector.toList := by
    rw [List.append_assoc]
    exact dropSuffix?_append _ _
  have hother : List.dropSuffix? ((selector.toList ++ [' ']) ++ ['\x7b']) [';'] = none :=
    dropSuffix?_of_ne (by decide) _ []
  rw [hline, read, dropWhile_indentation depth hc, hwritten]
  simp only [hopens, hother, String.ofList_toList]

theorem read_tail (depth : Int) : read (indentation depth ++ "\x7d").toList = .closes := by
  have hline : (indentation depth ++ "\x7d").toList = (indentation depth).toList ++ ['\x7d'] := by
    simp
  rw [hline, read, dropWhile_indentation depth (by decide)]
  rfl

theorem read_comment (depth : Int) (text : String) :
    read (Item.render depth (.comment text)).toList = .other := by
  have hline : (Item.render depth (.comment text)).toList =
      (indentation depth).toList ++ '/' :: (("* " ++ text ++ " *").toList ++ ['/']) := by
    simp [Item.render]
  have hstatement : List.dropSuffix? ('/' :: ("* " ++ text ++ " *").toList ++ ['/']) [';'] = none :=
    dropSuffix?_of_ne (by decide) _ []
  have hhead : List.dropSuffix? ('/' :: ("* " ++ text ++ " *").toList ++ ['/']) [' ', '\x7b'] = none :=
    dropSuffix?_of_ne (by decide) _ [' ']
  rw [hline, read, dropWhile_indentation depth (by decide), ← List.cons_append]
  simp only [hstatement, hhead]
  exact if_neg (by simp)

end Line

/-! ## Both are the same -/

namespace Import

variable {conditions : List String} {item : Item} {items : List Item}

/-- Files whose name can be written on one line. -/
def FitsLine (file : String) : Prop :=
  '\n' ∉ file.toList

theorem ofLines_renderAll
    (hitems : ∀ item ∈ items, ∀ (depth : Int) (conditions : List String) (rest : List (List Char)),
      ofLines conditions (Text.lines (item.render depth) ++ rest) =
        item.imports conditions ++ ofLines conditions rest)
    (depth : Int) (conditions : List String) (rest : List (List Char)) :
    ofLines conditions ((Item.renderAll depth items).flatMap Text.lines ++ rest) =
      Item.importsAll conditions items ++ ofLines conditions rest := by
  induction items with
  | nil => rfl
  | cons item others ih =>
      rw [List.forall_mem_cons] at hitems
      rw [Item.renderAll, List.flatMap_cons, List.append_assoc, hitems.1, ih hitems.2,
        Item.importsAll, List.append_assoc]

/-- The lines of an item make its imports, in front of any other lines. -/
theorem ofLines_render (hitem : item.ImportsOnly FitsLine) (depth : Int)
    (conditions : List String) (rest : List (List Char)) :
    ofLines conditions (Text.lines (item.render depth) ++ rest) =
      item.imports conditions ++ ofLines conditions rest := by
  induction hitem generalizing depth conditions rest with
  | @comment text hline =>
      have hsingle : '\n' ∉ (Item.render depth (.comment text)).toList := by
        simp [Item.render, newline_not_mem_indentation, hline]
      rw [Text.lines_eq_singleton hsingle, List.singleton_append, ofLines, Line.read_comment]
      rfl
  | @importOf file hfile =>
      have hname : '\n' ∉ file.toList := hfile
      have hsingle : '\n' ∉ ((ImportSheet.importOf file).render depth).toList := by
        simp [ImportSheet.importOf, Item.render, newline_not_mem_indentation, hname]
      rw [Text.lines_eq_singleton hsingle, List.singleton_append, ofLines, Line.read_importOf,
        Item.imports_importOf]
      rfl
  | @block selector children hselector _ ih =>
      have hhead : '\n' ∉ (indentation depth ++ selector ++ " \x7b").toList := by
        simp [newline_not_mem_indentation, hselector.1]
      have htail : '\n' ∉ (indentation depth ++ "\x7d").toList := by
        simp [newline_not_mem_indentation]
      calc
        ofLines conditions (Text.lines ((Item.block selector [] children).render depth) ++ rest) =
            ofLines conditions ((indentation depth ++ selector ++ " \x7b").toList ::
              ((Item.renderAll (depth + 1) children).flatMap Text.lines ++
                (indentation depth ++ "\x7d").toList :: rest)) := by
          rw [Item.render, Text.lines_intercalate (by simp)]
          simp only [List.map_nil, List.append_nil, List.flatMap_append, List.flatMap_cons,
            List.flatMap_nil, Text.lines_eq_singleton hhead, Text.lines_eq_singleton htail]
          simp
        _ = ofLines (conditions ++ [selector])
              ((Item.renderAll (depth + 1) children).flatMap Text.lines ++
                (indentation depth ++ "\x7d").toList :: rest) := by
          rw [ofLines, Line.read_head depth hselector]
        _ = Item.importsAll (conditions ++ [selector]) children ++
              ofLines (conditions ++ [selector]) ((indentation depth ++ "\x7d").toList :: rest) :=
          ofLines_renderAll ih (depth + 1) _ _
        _ = (Item.block selector [] children).imports conditions ++ ofLines conditions rest := by
          rw [ofLines, Line.read_tail, Item.imports, List.dropLast_concat]

theorem ofLines_nil_cons (rest : List (List Char)) :
    ofLines conditions ([] :: rest) = ofLines conditions rest := rfl

/-- Items on lines below one another. -/
theorem ofLines_intercalate_renderAll (hitems : ∀ item ∈ items, item.ImportsOnly FitsLine)
    (rest : List (List Char)) :
    ofLines conditions (Text.lines ("\n".intercalate (Item.renderAll 0 items)) ++ rest) =
      Item.importsAll conditions items ++ ofLines conditions rest := by
  cases items with
  | nil => exact ofLines_nil_cons rest
  | cons item others =>
      rw [Text.lines_intercalate (by simp [Item.renderAll])]
      exact ofLines_renderAll (fun item hitem => ofLines_render (hitems item hitem)) 0 conditions rest

/-- Sections of items with a blank line between them. -/
theorem ofLines_sections {sections : List (List Item)}
    (hsections : ∀ item ∈ sections.flatten, item.ImportsOnly FitsLine)
    (rest : List (List Char)) :
    ofLines conditions (Text.lines ("\n\n".intercalate
        (sections.map fun items => "\n".intercalate (Item.renderAll 0 items))) ++ rest) =
      Item.importsAll conditions sections.flatten ++ ofLines conditions rest := by
  induction sections with
  | nil => exact ofLines_nil_cons rest
  | cons items others ih =>
      rw [List.flatten_cons, List.forall_mem_append] at hsections
      cases others with
      | nil => simpa using ofLines_intercalate_renderAll hsections.1 rest
      | cons second others =>
          have hrest := ih hsections.2
          rw [List.map_cons] at hrest
          rw [List.map_cons, List.map_cons, String.intercalate_cons_cons, Text.lines_append_blank,
            List.append_assoc, List.cons_append, ofLines_intercalate_renderAll hsections.1,
            ofLines_nil_cons, hrest, ← List.append_assoc, ← Item.importsAll_append,
            ← List.flatten_cons]

end Import

end DesignTokens.Stylesheet
