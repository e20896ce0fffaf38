import DesignTokens.Proofs.Entries
import DesignTokens.Proofs.Mode.Thresholds
import DesignTokens.Proofs.Stylesheet.Properties

/-!
# The cascade

The value that a reader of a document gives a property is the one of its last
declaration that applies. The declarations of the root block always apply, those of a
conditional block where its condition is met: in a dark color scheme, or from some width
of the window on.
-/

namespace DesignTokens.Stylesheet

inductive Scheme where
  | light
  | dark
deriving DecidableEq, Repr

/-- What a document is read in: the preferred color scheme and the width of the window in
pixels. -/
structure Surroundings where
  scheme : Scheme
  width : ℝ

namespace Surroundings

/-- The surroundings meet a condition. -/
inductive Meets (place : Surroundings) : String → Prop
  | prefersDark : place.scheme = .dark → place.Meets prefersDark
  | minWidth (breakpoint : Breakpoint) : breakpoint.IsReached place.width →
      place.Meets (minWidthCondition breakpoint)

/-- An item applies, unless it is a block whose condition is not met. -/
def Admits (place : Surroundings) (item : Item) : Prop :=
  ∀ condition selector declarations, item = .media condition selector declarations →
    place.Meets condition

variable {place : Surroundings}

theorem minWidthCondition_ne_prefersDark (breakpoint : Breakpoint) :
    minWidthCondition breakpoint ≠ Stylesheet.prefersDark := by
  intro hsame
  have hchars := congrArg (fun text : String => text.toList.drop 1 |>.head?) hsame
  simp [minWidthCondition, Stylesheet.prefersDark] at hchars

theorem minWidth_eq_of_minWidthCondition_eq {first second : Breakpoint}
    (hsame : minWidthCondition first = minWidthCondition second) :
    first.minWidth = second.minWidth := by
  rw [minWidthCondition, minWidthCondition, ← String.toList_inj] at hsame
  simp only [String.toList_append] at hsame
  exact String.toList_inj.1 (List.append_cancel_left (List.append_cancel_right hsame))

theorem meets_prefersDark : place.Meets Stylesheet.prefersDark ↔ place.scheme = .dark := by
  constructor
  · intro hmeets
    generalize hcondition : Stylesheet.prefersDark = condition at hmeets
    cases hmeets with
    | prefersDark hdark => exact hdark
    | minWidth breakpoint => exact absurd hcondition.symm (minWidthCondition_ne_prefersDark _)
  · exact .prefersDark

theorem meets_minWidthCondition {breakpoint : Breakpoint} :
    place.Meets (minWidthCondition breakpoint) ↔ breakpoint.IsReached place.width := by
  constructor
  · intro hmeets
    generalize hcondition : minWidthCondition breakpoint = condition at hmeets
    cases hmeets with
    | prefersDark => exact absurd hcondition (minWidthCondition_ne_prefersDark _)
    | minWidth other hreached =>
        have hsame := minWidth_eq_of_minWidthCondition_eq hcondition
        simpa [Breakpoint.IsReached, Breakpoint.threshold, Breakpoint.pixels, hsame] using hreached
  · exact .minWidth breakpoint

theorem admits_media {condition selector : String} {declarations : List Declaration} :
    place.Admits (.media condition selector declarations) ↔ place.Meets condition := by
  constructor
  · intro hadmits
    exact hadmits condition selector declarations rfl
  · intro hmeets other _ _ hsame
    obtain ⟨hhead, -⟩ := Item.block.inj hsame
    have hcondition : condition = other := by
      rw [← String.toList_inj, String.toList_append, String.toList_append] at hhead
      exact String.toList_inj.1 (List.append_cancel_left hhead)
    rwa [← hcondition]

end Surroundings

/-! ## Declarations that apply -/

/-- The value of the last declaration of a property. -/
def cascaded? (declarations : List Declaration) (property : String) : Option String :=
  Entries.last? (declarations.map fun declaration => (declaration.property, declaration.value))
    property

open Classical in
/-- The declarations of an item where it applies. -/
noncomputable def Item.applicable (place : Surroundings) (item : Item) : List Declaration :=
  if place.Admits item then item.declarations else []

/-- The declarations that apply: the root block, then the conditional ones in their order. -/
noncomputable def Part.applicable (part : Part) (place : Surroundings) : List Declaration :=
  part.root ++ part.conditional.flatMap (Item.applicable place)

variable {place : Surroundings}

theorem cascaded?_append (first second : List Declaration) (property : String) :
    cascaded? (first ++ second) property =
      (cascaded? second property).or (cascaded? first property) := by
  rw [cascaded?, List.map_append, Entries.last?_append]
  rfl

theorem cascaded?_flatMap {α : Type} (f : α → List Declaration) (xs : List α)
    (property : String) : cascaded? (xs.flatMap f) property =
      xs.reverse.findSome? fun x => cascaded? (f x) property := by
  rw [cascaded?, List.map_flatMap, Entries.last?_flatMap]
  rfl

theorem applicable_media {condition : String} {P : Prop} [Decidable P]
    (hmeets : place.Meets condition ↔ P) (selector : String) (declarations : List Declaration) :
    Item.applicable place (.media condition selector declarations) =
      if P then declarations else [] := by
  have hdeclarations :
      (Item.media condition selector declarations).declarations = declarations := by
    simp [Item.media, Item.declarations, Item.allDeclarations]
  rw [Item.applicable, hdeclarations]
  by_cases hholds : P
  · rw [if_pos hholds, if_pos (Surroundings.admits_media.2 (hmeets.2 hholds))]
  · rw [if_neg hholds, if_neg (hholds ∘ hmeets.1 ∘ Surroundings.admits_media.1)]

/-- The tokens of a block count where its condition is met. -/
theorem applicable_mediaItems {options : RenderOptions} {dictionary : Dictionary}
    {condition : String} {P : Prop} [Decidable P] (hmeets : place.Meets condition ↔ P)
    (named : List (String × Token)) :
    (options.mediaItems dictionary condition named).flatMap (Item.applicable place) =
      if P then named.map (options.declaration dictionary) else [] := by
  cases named with
  | nil => simp [RenderOptions.mediaItems]
  | cons entry rest =>
      change [Item.media _ _ _].flatMap _ = _
      rw [List.flatMap_singleton, applicable_media hmeets]

/-- Declared tokens give a property the value of the last token of its name. -/
theorem cascaded?_map_declaration {options : RenderOptions} {dictionary : Dictionary}
    (named : List (String × Token)) (name : String) :
    cascaded? (named.map (options.declaration dictionary)) (custom name) =
      (Entries.last? named name).map (options.text dictionary) := by
  rw [cascaded?, List.map_map]
  exact Entries.last?_map custom_injective (fun entry => options.text dictionary entry.2) named name

end DesignTokens.Stylesheet
