import Mathlib.Data.List.Nodup
import DesignTokens.Proofs.Stylesheet.Properties

/-!
# The properties of mode files

A mode file declares its tokens under their names without the words of its own mode.
Two files of one category declare the same properties only as far as their modes leave
the same of every path: a word of one mode that stands in a path as an ordinary step is
left out by the one file and kept by the other.
-/

namespace DesignTokens.Stylesheet

namespace Assembly

variable (assembly : Assembly)

/-- The name under which the file of a mode declares a token. -/
def modeName (mode : String) (token : Token) : String :=
  let own := match token.mode with
    | some name => if name.isEmpty then [] else [name]
    | none => []
  token.nameWithoutAll (Text.fields '/' mode ++ own) assembly.options.lead

def modeDeclarations (mode : String) (tokens : List Token) (dictionary : Dictionary) :
    Traced (List Declaration) :=
  Prod.snd <$> tokens.foldlM (assembly.addModeDeclaration mode dictionary) ([], [])

/-- The items of one mode of a category. -/
def modeItems (category mode : String) (tokens : List Token) (dictionary : Dictionary) :
    Traced (List Item) :=
  let selected := Category.select category tokens
  if selected.isEmpty then
    pure [.comment "No tokens found for this category"]
  else
    (fun declarations => [.block assembly.options.selector declarations []]) <$>
      assembly.modeDeclarations mode selected dictionary

theorem modeText_eq (category mode : String) (tokens : List Token) (dictionary : Dictionary) :
    assembly.modeText category mode tokens dictionary =
      documentText fileHeader <$> assembly.modeItems category mode tokens dictionary := by
  rw [modeText, modeItems]
  split
  · rw [map_pure]
    rfl
  · simp [modeDeclarations]

variable {assembly : Assembly} {mode : String} {dictionary : Dictionary}

theorem properties_of_addModeDeclaration {done next : List (String × Token) × List Declaration}
    {token : Token}
    (hnext : (assembly.addModeDeclaration mode dictionary done token).result = .ok next) :
    next.2.map Declaration.property =
      done.2.map Declaration.property ++ [custom (assembly.modeName mode token)] := by
  obtain ⟨entered, -, hnext⟩ := Traced.bind_eq_ok.1 hnext
  obtain ⟨declaration, hdeclaration, hnext⟩ := Traced.bind_eq_ok.1 hnext
  cases hnext
  rw [List.map_append, List.map_singleton, RenderOptions.property_of_declare hdeclaration]
  rfl

theorem properties_of_foldlM {tokens : List Token}
    {done last : List (String × Token) × List Declaration}
    (hlast : (tokens.foldlM (assembly.addModeDeclaration mode dictionary) done).result =
      .ok last) :
    last.2.map Declaration.property = done.2.map Declaration.property ++
      tokens.map fun token => custom (assembly.modeName mode token) := by
  induction tokens generalizing done with
  | nil =>
      cases hlast
      simp
  | cons token rest ih =>
      rw [List.foldlM_cons] at hlast
      obtain ⟨next, hnext, hrest⟩ := Traced.bind_eq_ok.1 hlast
      rw [ih hrest, properties_of_addModeDeclaration hnext]
      simp

/-- A mode file declares the tokens of its category in order. -/
theorem allProperties_of_modeItems {category : String} {tokens : List Token} {items : List Item}
    (hitems : (assembly.modeItems category mode tokens dictionary).result = .ok items) :
    Item.allProperties items = (Category.select category tokens).map fun token =>
      custom (assembly.modeName mode token) := by
  rw [modeItems] at hitems
  split at hitems
  · next hempty =>
      cases hitems
      rw [List.isEmpty_iff.1 hempty]
      rfl
  · obtain ⟨declarations, hdeclarations, rfl⟩ := Traced.map_eq_ok.1 hitems
    obtain ⟨last, hlast, rfl⟩ := Traced.map_eq_ok.1 hdeclarations
    simpa [Item.allProperties, Item.allDeclarations, Item.declarations] using
      properties_of_foldlM hlast

/-- A token that is bound to no mode loses the words of the file's mode only. -/
theorem modeName_of_mode_eq_none {token : Token} (hmode : token.mode = none) :
    assembly.modeName mode token =
      token.nameWithoutAll (Text.fields '/' mode) assembly.options.lead := by
  simp only [modeName, hmode, List.append_nil]

/-- A token that is named after its path is named without the words after what they leave
of the path. -/
theorem nameWithoutAll_eq_ofPath {token : Token} {lead : Option String}
    (hname : token.name = Name.ofPath token.path lead) (words : List String) :
    token.nameWithoutAll words lead = Name.ofPath (token.path.diff words) lead := by
  rw [Token.nameWithoutAll, ← List.diff_eq_foldl]
  split
  · next hsame => rw [hsame, hname]
  · rfl

/-! ## Two files of one category -/

/-- The tokens have their path and their type in common. -/
def SamePlace (first second : Token) : Prop :=
  first.path = second.path ∧ first.type = second.type

theorem ofToken_eq_of_samePlace {first second : Token} (hsame : SamePlace first second) :
    Category.ofToken first = Category.ofToken second := by
  obtain ⟨hpath, htype⟩ := hsame
  simp [Category.ofToken, Typography.isPlain, hpath, htype]

theorem select_of_samePlace (category : String) {first second : List Token}
    (hsame : List.Forall₂ SamePlace first second) :
    List.Forall₂ SamePlace (Category.select category first) (Category.select category second) :=
  List.rel_filter (fun _ _ h => by simp [ofToken_eq_of_samePlace h]) hsame

/-- The names of the selected tokens without the words of a mode. -/
def namesWithout (lead : Option String) (category mode : String) (tokens : List Token) :
    List String :=
  (Category.select category tokens).map fun token =>
    token.nameWithoutAll (Text.fields '/' mode) lead

theorem allProperties_of_mode_eq_none {category : String} {tokens : List Token}
    {items : List Item} (hmode : ∀ token ∈ tokens, token.mode = none)
    (hitems : (assembly.modeItems category mode tokens dictionary).result = .ok items) :
    Item.allProperties items =
      (namesWithout assembly.options.lead category mode tokens).map custom := by
  rw [allProperties_of_modeItems hitems, namesWithout, List.map_map]
  apply List.map_congr_left
  intro token hmem
  rw [modeName_of_mode_eq_none (hmode token (List.mem_filter.1 hmem).1)]
  rfl

/-- The tokens are named after their paths, as loaded tokens are. -/
def NamedAfterPaths (lead : Option String) (tokens : List Token) : Prop :=
  ∀ token ∈ tokens, token.name = Name.ofPath token.path lead

theorem namesWithout_eq_map_ofPath {lead : Option String} {tokens : List Token}
    (hnamed : NamedAfterPaths lead tokens) (category mode : String) :
    namesWithout lead category mode tokens = (Category.select category tokens).map fun token =>
      Name.ofPath (token.path.diff (Text.fields '/' mode)) lead := by
  apply List.map_congr_left
  intro token hmem
  exact nameWithoutAll_eq_ofPath (hnamed token (List.mem_filter.1 hmem).1) _

/-- Two mode files of tokens in the same places declare the same properties in the same
order exactly when the tokens have the same names without the words of the two modes; for
tokens that are named after their paths, when the two modes leave the same name of every
path. -/
theorem allProperties_eq_iff {category first second : String}
    {firstTokens secondTokens : List Token} {firstDictionary secondDictionary : Dictionary}
    {firstItems secondItems : List Item}
    (hsame : List.Forall₂ SamePlace firstTokens secondTokens)
    (hfirst : ∀ token ∈ firstTokens, token.mode = none)
    (hsecond : ∀ token ∈ secondTokens, token.mode = none)
    (hfirstItems : (assembly.modeItems category first firstTokens firstDictionary).result =
      .ok firstItems)
    (hsecondItems : (assembly.modeItems category second secondTokens secondDictionary).result =
      .ok secondItems) :
    (Item.allProperties firstItems = Item.allProperties secondItems ↔
      namesWithout assembly.options.lead category first firstTokens =
        namesWithout assembly.options.lead category second secondTokens) ∧
    (NamedAfterPaths assembly.options.lead firstTokens →
      NamedAfterPaths assembly.options.lead secondTokens →
      (Item.allProperties firstItems = Item.allProperties secondItems ↔
        ∀ token ∈ Category.select category firstTokens,
          Name.ofPath (token.path.diff (Text.fields '/' first)) assembly.options.lead =
            Name.ofPath (token.path.diff (Text.fields '/' second)) assembly.options.lead)) := by
  have hnames : Item.allProperties firstItems = Item.allProperties secondItems ↔
      namesWithout assembly.options.lead category first firstTokens =
        namesWithout assembly.options.lead category second secondTokens := by
    rw [allProperties_of_mode_eq_none hfirst hfirstItems,
      allProperties_of_mode_eq_none hsecond hsecondItems]
    exact (List.map_injective_iff.2 custom_injective).eq_iff
  constructor
  · exact hnames
  · intro hfirstNamed hsecondNamed
    have hplaces : namesWithout assembly.options.lead category second secondTokens =
        (Category.select category firstTokens).map fun token =>
          Name.ofPath (token.path.diff (Text.fields '/' second)) assembly.options.lead := by
      rw [namesWithout_eq_map_ofPath hsecondNamed]
      apply Paired.map_eq_map (select_of_samePlace category hsame)
      intro token other hplace
      rw [hplace.1]
    rw [hnames, namesWithout_eq_map_ofPath hfirstNamed, hplaces, List.map_inj_left]

/-! ### A step that is the mode of one file only -/

/-- A color whose path has the name of a mode as a step. -/
def darkSurface : Dictionary where
  tokens := [⟨["color", "dark", "surface"], "color-dark-surface", some "color", .text "#fff",
    .text "#fff", none, none, [], none⟩]
  nodup_paths := by simp

theorem mode_darkSurface : ∀ token ∈ darkSurface.tokens, token.mode = none := by
  simp [darkSurface]

theorem darkItems_darkSurface :
    (({} : Assembly).modeItems "color" "dark" darkSurface.tokens darkSurface).result =
      .ok [.block ":root" [⟨"--color-surface", "#fff"⟩] []] := rfl

theorem lightItems_darkSurface :
    (({} : Assembly).modeItems "color" "light" darkSurface.tokens darkSurface).result =
      .ok [.block ":root" [⟨"--color-dark-surface", "#fff"⟩] []] := rfl

theorem samePlace_darkSurface :
    List.Forall₂ SamePlace darkSurface.tokens darkSurface.tokens :=
  List.forall₂_same.2 fun _ _ => ⟨rfl, rfl⟩

theorem namedAfterPaths_darkSurface : NamedAfterPaths none darkSurface.tokens := by
  intro token hmem
  have hsame := List.mem_singleton.1 hmem
  subst hsame
  rfl

theorem allProperties_eq_iff_darkSurface :
    (List.Forall₂ SamePlace darkSurface.tokens darkSurface.tokens ∧
      (∀ token ∈ darkSurface.tokens, token.mode = none) ∧
      NamedAfterPaths none darkSurface.tokens) ∧
    ¬ ∀ token ∈ Category.select "color" darkSurface.tokens,
      Name.ofPath (token.path.diff (Text.fields '/' "dark")) none =
        Name.ofPath (token.path.diff (Text.fields '/' "light")) none := by
  have hiff := (allProperties_eq_iff samePlace_darkSurface mode_darkSurface mode_darkSurface
    darkItems_darkSurface lightItems_darkSurface).2 namedAfterPaths_darkSurface
    namedAfterPaths_darkSurface
  constructor
  · exact ⟨samePlace_darkSurface, mode_darkSurface, namedAfterPaths_darkSurface⟩
  · intro hsame
    exact absurd (hiff.2 hsame) (by decide)

/-- The dark and the light file of one token declare different properties. -/
theorem allProperties_ne_darkSurface : ∃ darkItems lightItems,
    List.Forall₂ SamePlace darkSurface.tokens darkSurface.tokens ∧
      (∀ token ∈ darkSurface.tokens, token.mode = none) ∧
      (({} : Assembly).modeItems "color" "dark" darkSurface.tokens darkSurface).result =
        .ok darkItems ∧
      (({} : Assembly).modeItems "color" "light" darkSurface.tokens darkSurface).result =
        .ok lightItems ∧
      Item.allProperties darkItems ≠ Item.allProperties lightItems :=
  ⟨_, _, samePlace_darkSurface, mode_darkSurface, darkItems_darkSurface, lightItems_darkSurface,
    by decide⟩

end Assembly

end DesignTokens.Stylesheet
