import DesignTokens.Proofs.Stylesheet.Categories

/-!
# Properties that are declared once

The tokens of one mode have distinct names, or the document fails. Nothing compares the
tokens without a mode, which keep their own names, with one another or with the names that
the tokens of a mode take. A block of the document declares a property twice exactly when two
of these names are the same.
-/

namespace DesignTokens.Stylesheet

namespace Item

mutual

/-- No block of an item declares a property twice, at any depth. -/
def DeclaresOnce : Item → Prop
  | .block _ declarations children =>
    (declarations.map Declaration.property).Nodup ∧ AllDeclareOnce children
  | _ => True
termination_by structural item => item

def AllDeclareOnce : List Item → Prop
  | [] => True
  | item :: rest => item.DeclaresOnce ∧ AllDeclareOnce rest
termination_by structural items => items

end

theorem allDeclareOnce_iff {items : List Item} :
    AllDeclareOnce items ↔ ∀ item ∈ items, item.DeclaresOnce := by
  induction items with
  | nil => simp [AllDeclareOnce]
  | cons item rest ih => rw [AllDeclareOnce, ih, List.forall_mem_cons]

@[simp]
theorem declaresOnce_block (selector : String) (declarations : List Declaration) :
    (block selector declarations []).DeclaresOnce ↔
      (declarations.map Declaration.property).Nodup := by
  simp [DeclaresOnce, AllDeclareOnce]

@[simp]
theorem declaresOnce_media (condition selector : String) (declarations : List Declaration) :
    (media condition selector declarations).DeclaresOnce ↔
      (declarations.map Declaration.property).Nodup := by
  simp [media, DeclaresOnce, AllDeclareOnce]

end Item

theorem Part.allDeclareOnce_items {part : Part} {selector : String} :
    Item.AllDeclareOnce (part.items selector) ↔
      (part.root.map Declaration.property).Nodup ∧ Item.AllDeclareOnce part.conditional := by
  rw [Part.items, Item.AllDeclareOnce, Item.declaresOnce_block]

variable {tokens : List Token} {dictionary : Dictionary} {options : RenderOptions}
  {axis : ModeAxis} {part : Part} {lead : Option String}

/-- Tokens under distinct names are declared as distinct properties. -/
theorem nodup_properties_iff {named : List (String × Token)} :
    ((named.map (options.declaration dictionary)).map Declaration.property).Nodup ↔
      (Entries.keys named).Nodup := by
  have hproperties : (named.map (options.declaration dictionary)).map Declaration.property =
      (Entries.keys named).map custom := by
    rw [Entries.keys, List.map_map, List.map_map]
    rfl
  rw [hproperties, List.nodup_map_iff custom_injective]

theorem allDeclareOnce_mediaItems {condition : String} {named : List (String × Token)}
    (hnodup : (Entries.keys named).Nodup) :
    Item.AllDeclareOnce (options.mediaItems dictionary condition named) := by
  rw [RenderOptions.mediaItems]
  split
  · trivial
  · exact ⟨(Item.declaresOnce_media ..).2 (nodup_properties_iff.2 hnodup), trivial⟩

/-! ## Names that no other token has -/

/-- The tokens without a mode of the axis have distinct names, and no token of one of some
modes takes one of these. -/
structure OwnNamesFree (axis : ModeAxis) (modes : List String) (tokens : List Token)
    (lead : Option String) : Prop where
  distinct : ((axis.unmoded tokens).map Token.name).Nodup
  free : ∀ token ∈ axis.unmoded tokens, ∀ mode ∈ modes, ¬ Mode.IsTaken mode lead tokens token.name

theorem nodup_own_append_iff {modes taken : List String} (hnodup : taken.Nodup)
    (htaken : ∀ name, name ∈ taken ↔ ∃ mode ∈ modes, Mode.IsTaken mode lead tokens name) :
    ((axis.unmoded tokens).map Token.name ++ taken).Nodup ↔
      OwnNamesFree axis modes tokens lead := by
  rw [List.nodup_append']
  constructor
  · rintro ⟨hdistinct, -, hdisjoint⟩
    refine ⟨hdistinct, fun token htoken mode hmode hbound => ?_⟩
    exact hdisjoint (List.mem_map_of_mem htoken) ((htaken token.name).2 ⟨mode, hmode, hbound⟩)
  · rintro ⟨hdistinct, hfree⟩
    refine ⟨hdistinct, hnodup, fun name hown hname => ?_⟩
    obtain ⟨token, htoken, rfl⟩ := List.mem_map.1 hown
    obtain ⟨mode, hmode, hbound⟩ := (htaken token.name).1 hname
    exact hfree token htoken mode hmode hbound

/-- Tokens under their own names before those of one mode. -/
theorem nodup_keys_own_append_iff {mode : String} (hmode : mode ∈ axis.values)
    (hdistinct : (Entries.keys (Mode.entriesOf axis tokens lead mode)).Nodup) :
    (Entries.keys ((axis.unmoded tokens).map (fun token => (token.name, token)) ++
        Mode.entriesOf axis tokens lead mode)).Nodup ↔
      OwnNamesFree axis [mode] tokens lead := by
  have htaken : ∀ name, name ∈ Entries.keys (Mode.entriesOf axis tokens lead mode) ↔
      ∃ other ∈ [mode], Mode.IsTaken other lead tokens name := by
    simp [Mode.mem_keys_entriesOf hmode]
  rw [← nodup_own_append_iff hdistinct htaken]
  simp only [Entries.keys, List.map_append, List.map_map, Function.comp_def]

/-! ## Colors -/

/-- The modes whose tokens the root block declares. -/
def ColorStrategy.rootModes (axis : ModeAxis) (darkMode : String) : ColorStrategy → List String
  | .lightDarkFunction => [axis.default, darkMode]
  | .mediaQuery => [axis.default]

theorem Tone.nodup_properties_iff {tones : List (String × Tone)} :
    ((tones.map Tone.declaration).map Declaration.property).Nodup ↔ (Entries.keys tones).Nodup := by
  have hproperties : (tones.map Tone.declaration).map Declaration.property =
      (Entries.keys tones).map custom := by
    rw [Entries.keys, List.map_map, List.map_map]
    exact List.map_congr_left fun entry _ => property_declaration entry
  rw [hproperties, List.nodup_map_iff custom_injective]

namespace Palette

variable {palette : Palette} {darkMode : String}
  (hpalette : ofAxis axis tokens lead = .ok palette) (hsecond : axis.second? = some darkMode)

include hpalette hsecond

theorem nodup_keys_tones_iff :
    (Entries.keys (palette.tones options dictionary)).Nodup ↔
      OwnNamesFree axis [axis.default, darkMode] tokens lead := by
  obtain ⟨hlight, hdark⟩ := distinct_of_ofAxis hpalette
  have htaken : ∀ name, name ∈ Entries.keys palette.light ++ Entries.keys palette.darkOnly ↔
      ∃ mode ∈ [axis.default, darkMode], Mode.IsTaken mode lead tokens name := by
    intro name
    rw [List.mem_append, mem_keys_darkOnly, eq_of_ofAxis hpalette hsecond,
      Mode.mem_keys_entriesOf axis.default_mem,
      Mode.mem_keys_entriesOf (List.mem_of_find?_eq_some hsecond)]
    simp
    tauto
  have hnodup : (Entries.keys palette.light ++ Entries.keys palette.darkOnly).Nodup := by
    refine hlight.append (hdark.sublist (List.filter_sublist.map Prod.fst)) ?_
    intro name hname halone
    exact (mem_keys_darkOnly.1 halone).2 hname
  rw [keys_tones, List.append_assoc, ← nodup_own_append_iff hnodup htaken,
    eq_of_ofAxis hpalette hsecond]
  simp only [own, Entries.keys, List.map_map, Function.comp_def]

theorem allDeclareOnce_toPart_iff {strategy : ColorStrategy} {selector : String} :
    Item.AllDeclareOnce ((palette.toPart options dictionary strategy).items selector) ↔
      OwnNamesFree axis (strategy.rootModes axis darkMode) tokens lead := by
  obtain ⟨hlight, hdark⟩ := distinct_of_ofAxis hpalette
  rw [Part.allDeclareOnce_items]
  cases strategy with
  | lightDarkFunction =>
      rw [toPart, Tone.nodup_properties_iff, nodup_keys_tones_iff hpalette hsecond]
      simp [Item.AllDeclareOnce, ColorStrategy.rootModes]
  | mediaQuery =>
      have hblock : Item.AllDeclareOnce (palette.darkItems options dictionary) := by
        rw [darkItems_eq]
        exact allDeclareOnce_mediaItems hdark
      rw [eq_of_ofAxis hpalette hsecond] at hlight hblock ⊢
      rw [toPart, nodup_properties_iff, and_iff_left hblock]
      exact nodup_keys_own_append_iff axis.default_mem hlight

end Palette

/-! ## Dimensions -/

variable {table : List Breakpoint}

/-- The blocks of the breakpoints declare what is named once in each mode. -/
theorem allDeclareOnce_blocks {dimensions : List Token} (haxis : Breakpoint.axis table = .ok axis)
    (hdistinct : ∀ mode ∈ axis.values,
      (Entries.keys (Mode.entriesOf axis dimensions options.lead mode)).Nodup) :
    Item.AllDeclareOnce ((Breakpoint.ascending table).flatMap
      (blockOf options dictionary axis dimensions)) := by
  rw [Item.allDeclareOnce_iff]
  intro item hitem
  obtain ⟨breakpoint, hbreakpoint, hitem⟩ := List.mem_flatMap.1 hitem
  have hvalue : breakpoint.name ∈ axis.values := by
    rw [Breakpoint.values_of_axis haxis]
    exact List.mem_map_of_mem hbreakpoint
  rw [blockOf_eq] at hitem
  split at hitem
  · cases hitem
  · exact Item.allDeclareOnce_iff.1 (allDeclareOnce_mediaItems (hdistinct _ hvalue)) item hitem

theorem allDeclareOnce_widthPartOf_iff {dimensions : List Token} {selector : String}
    (haxis : Breakpoint.axis table = .ok axis)
    (hdistinct : ∀ mode ∈ axis.values,
      (Entries.keys (Mode.entriesOf axis dimensions options.lead mode)).Nodup) :
    Item.AllDeclareOnce ((widthPartOf options dictionary axis dimensions table).items selector) ↔
      OwnNamesFree axis [axis.default] dimensions options.lead := by
  rw [Part.allDeclareOnce_items, widthPartOf, nodup_properties_iff,
    and_iff_left (allDeclareOnce_blocks haxis hdistinct)]
  exact nodup_keys_own_append_iff axis.default_mem (hdistinct _ axis.default_mem)

/-! ## Names that collide -/

/-- Two tokens are bound to one mode and take one name; the error says so. -/
def IsCollision (tokens : List Token) (lead : Option String) (error : Error) : Prop :=
  ∃ first ∈ tokens, ∃ second ∈ tokens, ∃ name mode,
    Mode.Takes mode lead name first ∧ Mode.Takes mode lead name second ∧
      error = .problem (.sameName first.path second.path name mode) none

theorem IsCollision.mono {selected : List Token} {error : Error} (hsubset : selected ⊆ tokens)
    (hcollision : IsCollision selected lead error) : IsCollision tokens lead error := by
  obtain ⟨first, hfirst, second, hsecond, hsame⟩ := hcollision
  exact ⟨first, hsubset hfirst, second, hsubset hsecond, hsame⟩

open Failing in
theorem failsOnly_byName {mode : String} (hmode : ∀ token ∈ tokens, token.mode = some mode) :
    FailsOnly (IsCollision tokens lead) (Mode.byName tokens mode lead) := by
  induction tokens using List.reverseRecOn with
  | nil => exact .of_ok []
  | append_singleton tokens token ih =>
      rw [List.forall_mem_append, List.forall_mem_singleton] at hmode
      rw [Mode.byName_append_singleton]
      refine FailsOnly.bind ?_ fun named hnamed => ?_
      · intro error herror
        exact (ih hmode.1 error herror).mono (List.subset_append_left tokens [token])
      · obtain ⟨rfl, -⟩ := Mode.byName_eq_ok.1 hnamed
        rw [Mode.enter]
        split
        · next other hother =>
            obtain ⟨first, hfirst, hentry⟩ :=
              List.mem_map.1 (Entries.mem_of_get?_eq_some hother)
            obtain ⟨hname, rfl⟩ := Prod.mk.inj hentry
            exact .of_error ⟨first, List.mem_append_left _ hfirst, token, List.mem_concat_self,
              _, mode, ⟨hmode.1 first hfirst, hname⟩, ⟨hmode.2, rfl⟩, rfl⟩
        · exact .of_ok _

theorem failsOnly_byName_bucket (axis : ModeAxis) (mode : String) :
    Failing.FailsOnly (IsCollision tokens lead)
      (Mode.byName (axis.bucket tokens mode) mode lead) := by
  have hmode : ∀ token ∈ axis.bucket tokens mode, token.mode = some mode := by
    intro token htoken
    rw [ModeAxis.bucket] at htoken
    split at htoken
    · simpa using (List.mem_filter.1 htoken).2
    · cases htoken
  intro error herror
  exact (failsOnly_byName hmode error herror).mono (axis.bucket_subset tokens mode)

/-! ## Parts that fail -/

theorem RenderOptions.Renders.failsOnly {bad : Error → Prop} {token : Token}
    (hrenders : options.Renders dictionary token) :
    Failing.FailsOnly bad (options.value token dictionary).result := by
  obtain ⟨text, htext⟩ := hrenders
  rw [htext]
  exact .of_ok text

theorem forall_mem_of_byName {good : Token → Prop} (hall : ∀ token ∈ tokens, good token)
    {mode : String} {named : List (String × Token)}
    (hnamed : Mode.byName (axis.bucket tokens mode) mode lead = .ok named) :
    ∀ entry ∈ named, good entry.2 := by
  intro entry hentry
  rw [(Mode.byName_bucket_eq_ok.1 hnamed).1] at hentry
  exact hall entry.2 (Mode.mem_of_mem_entriesOf hentry)

section

variable {bad : Error → Prop}

theorem failsOnly_declareAll {named : List (String × Token)}
    (hvalue : ∀ entry ∈ named, Failing.FailsOnly bad (options.value entry.2 dictionary).result) :
    Failing.FailsOnly bad (options.declareAll dictionary named).result := by
  rw [RenderOptions.declareAll, Traced.result_mapM]
  exact .mapM fun entry hentry => Traced.failsOnly_map (hvalue entry hentry) _

theorem failsOnly_declarePair {dark : List (String × Token)} {light : Token}
    (hlight : Failing.FailsOnly bad (options.value light dictionary).result)
    (hdark : ∀ entry ∈ dark, Failing.FailsOnly bad (options.value entry.2 dictionary).result)
    (name : String) :
    Failing.FailsOnly bad (declarePair options dictionary dark name light).result := by
  refine Traced.failsOnly_bind hlight fun _ _ => ?_
  cases hfound : Entries.get? dark name with
  | none => exact .of_ok _
  | some token =>
      have htoken := hdark _ (Entries.mem_of_get?_eq_some hfound)
      exact Traced.failsOnly_bind htoken fun _ _ => .of_ok _

variable (hvalue : ∀ token ∈ tokens,
  Failing.FailsOnly bad (options.value token dictionary).result)

include hvalue

theorem failsOnly_declareOwn :
    Failing.FailsOnly bad (options.declareOwn dictionary tokens).result := by
  apply failsOnly_declareAll
  intro entry hentry
  obtain ⟨token, htoken, rfl⟩ := List.mem_map.1 hentry
  exact hvalue token htoken

variable (hname : ∀ error, IsCollision tokens options.lead error → bad error)
  {darkMode : String}

include hname

theorem failsOnly_lightDarkPart (hsecond : axis.second? = some darkMode) :
    Failing.FailsOnly bad (lightDarkPart tokens dictionary options axis).result := by
  rw [lightDarkPart, hsecond]
  refine Traced.failsOnly_bind (failsOnly_declareOwn fun token htoken =>
    hvalue token (axis.unmoded_subset tokens htoken)) fun unmoded _ => ?_
  refine Traced.failsOnly_bind ((failsOnly_byName_bucket axis axis.default).mono hname)
    fun light hlight => ?_
  refine Traced.failsOnly_bind ((failsOnly_byName_bucket axis darkMode).mono hname)
    fun dark hdark => ?_
  have hdarkValue := forall_mem_of_byName hvalue hdark
  apply Traced.failsOnly_bind
  · rw [Traced.result_mapM]
    exact .mapM fun entry hentry =>
      failsOnly_declarePair (forall_mem_of_byName hvalue hlight entry hentry) hdarkValue entry.1
  · refine fun paired _ => Traced.failsOnly_bind (failsOnly_declareAll ?_) fun alone _ => .of_ok _
    exact fun entry hentry => hdarkValue entry (List.mem_filter.1 hentry).1

theorem failsOnly_mediaQueryPart (hsecond : axis.second? = some darkMode) :
    Failing.FailsOnly bad (mediaQueryPart tokens dictionary options axis).result := by
  rw [mediaQueryPart, hsecond]
  refine Traced.failsOnly_bind (failsOnly_declareOwn fun token htoken =>
    hvalue token (axis.unmoded_subset tokens htoken)) fun unmoded _ => ?_
  refine Traced.failsOnly_bind ((failsOnly_byName_bucket axis axis.default).mono hname)
    fun light hlight => ?_
  refine Traced.failsOnly_bind
    (failsOnly_declareAll (forall_mem_of_byName hvalue hlight)) fun declarations _ => ?_
  refine Traced.failsOnly_bind ((failsOnly_byName_bucket axis darkMode).mono hname)
    fun dark hdark => ?_
  split
  · exact .of_ok _
  · exact Traced.failsOnly_bind
      (failsOnly_declareAll (forall_mem_of_byName hvalue hdark)) fun _ _ => .of_ok _

theorem failsOnly_widthBlock (breakpoint : Breakpoint) :
    Failing.FailsOnly bad (widthBlock tokens dictionary options axis breakpoint).result := by
  rw [widthBlock]
  split
  · exact .of_ok _
  · refine Traced.failsOnly_bind ((failsOnly_byName_bucket axis breakpoint.name).mono hname)
      fun named hnamed => ?_
    split
    · exact .of_ok _
    · exact Traced.failsOnly_bind
        (failsOnly_declareAll (forall_mem_of_byName hvalue hnamed)) fun _ _ => .of_ok _

end

section

variable {bad : Error → Prop}

/-- The colors fail only as one of their values does, or for two of them with one name. -/
theorem failsOnly_colorPart {darkMode : String} (hsecond : axis.second? = some darkMode)
    (hvalue : ∀ token ∈ colorsOf tokens,
      Failing.FailsOnly bad (options.value token dictionary).result)
    (hname : ∀ error, IsCollision (colorsOf tokens) options.lead error → bad error)
    (strategy : ColorStrategy) :
    Failing.FailsOnly bad (colorPart tokens dictionary options strategy axis).result := by
  cases strategy with
  | lightDarkFunction => exact failsOnly_lightDarkPart hvalue hname hsecond
  | mediaQuery => exact failsOnly_mediaQueryPart hvalue hname hsecond

/-- The dimensions fail only as the axis for the table or one of their values does, or for two
of them with one name. -/
theorem failsOnly_widthPart (haxis : Failing.FailsOnly bad (Breakpoint.axis table))
    (hvalue : ∀ token ∈ dimensionsOf tokens,
      Failing.FailsOnly bad (options.value token dictionary).result)
    (hname : ∀ error, IsCollision (dimensionsOf tokens) options.lead error → bad error) :
    Failing.FailsOnly bad (widthPart tokens dictionary options table).result := by
  refine Traced.failsOnly_bind haxis fun axis _ => ?_
  refine Traced.failsOnly_bind (failsOnly_declareOwn fun token htoken =>
    hvalue token (axis.unmoded_subset _ htoken)) fun unmoded _ => ?_
  refine Traced.failsOnly_bind ((failsOnly_byName_bucket axis axis.default).mono hname)
    fun base hbase => ?_
  refine Traced.failsOnly_bind
    (failsOnly_declareAll (forall_mem_of_byName hvalue hbase)) fun declarations _ => ?_
  refine Traced.failsOnly_bind ?_ fun blocks _ => .of_ok _
  rw [Traced.result_mapM]
  exact .mapM fun breakpoint _ => failsOnly_widthBlock hvalue hname breakpoint

end

namespace Assembly

variable {assembly : Assembly} {category : String} {items : List Item}

/-- The axis by whose modes the document of a category orders its tokens, and the modes whose
tokens stand in its root block. -/
inductive RootModes (assembly : Assembly) (category : String) : ModeAxis → List String → Prop
  | colors (darkMode : String) : category = "color" →
      assembly.colorAxis.second? = some darkMode →
      RootModes assembly category assembly.colorAxis
        (assembly.strategy.rootModes assembly.colorAxis darkMode)
  | widths (axis : ModeAxis) : category = "dimension" →
      Breakpoint.axis assembly.breakpoints = .ok axis →
      RootModes assembly category axis [axis.default]

/-- The tokens of a category that its document shows. -/
def shownOf (category : String) (tokens : List Token) : List Token :=
  (Category.select category tokens).filter (Category.isShown category)

theorem shownOf_color (tokens : List Token) :
    shownOf "color" tokens = colorsOf (Category.select "color" tokens) := rfl

theorem shownOf_dimension (tokens : List Token) :
    shownOf "dimension" tokens = dimensionsOf (Category.select "dimension" tokens) := rfl

/-- The blocks of the colors or of the dimensions declare every property once exactly when the
names of the tokens without a mode are free. -/
theorem allDeclareOnce_iff_of_categoryItems (hcategory : category = "color" ∨ category = "dimension")
    (hitems : (assembly.categoryItems category (Category.select category tokens)
      dictionary).result = .ok items) :
    Item.AllDeclareOnce items ↔ ∀ axis modes, RootModes assembly category axis modes →
      OwnNamesFree axis modes (shownOf category tokens) assembly.options.lead := by
  rcases hcategory with rfl | rfl
  · obtain ⟨part, hpart, hitems⟩ := Traced.bind_eq_ok.1 hitems
    cases hitems
    obtain ⟨palette, hpalette, -, rfl⟩ := colorPart_eq_ok.1 hpart
    obtain ⟨darkMode, hsecond⟩ := Palette.exists_second_of_ofAxis hpalette
    rw [Palette.allDeclareOnce_toPart_iff hpalette hsecond, ← shownOf_color]
    constructor
    · intro hfree axis modes hroot
      cases hroot with
      | colors other _ hother => rwa [Option.some.inj (hother.symm.trans hsecond)]
      | widths _ hdimension => exact absurd hdimension (by decide)
    · intro hfree
      exact hfree _ _ (.colors darkMode rfl hsecond)
  · obtain ⟨part, hpart, hitems⟩ := Traced.bind_eq_ok.1 hitems
    cases hitems
    obtain ⟨axis, haxis, -, hdistinct, rfl⟩ := widthPart_eq_ok.1 hpart
    rw [allDeclareOnce_widthPartOf_iff haxis hdistinct, ← shownOf_dimension]
    constructor
    · intro hfree other modes hroot
      cases hroot with
      | colors _ hcolor => exact absurd hcolor (by decide)
      | widths _ _ hother => rwa [Except.ok.inj (hother.symm.trans haxis)]
    · intro hfree
      exact hfree _ _ (.widths axis rfl haxis)

theorem failsOnly_categoryItems {modes : List String}
    (hroot : RootModes assembly category axis modes)
    (hrenders : ∀ token ∈ shownOf category tokens, assembly.options.Renders dictionary token) :
    Failing.FailsOnly (IsCollision (shownOf category tokens) assembly.options.lead)
      (assembly.categoryItems category (Category.select category tokens) dictionary).result := by
  cases hroot with
  | colors darkMode hcolor hsecond =>
      subst hcolor
      exact Traced.failsOnly_bind (failsOnly_colorPart hsecond
        (fun token htoken => (hrenders token htoken).failsOnly) (fun _ => id) assembly.strategy)
        fun _ _ => .of_ok _
  | widths _ hdimension haxis =>
      subst hdimension
      exact Traced.failsOnly_bind (failsOnly_widthPart (.of_eq_ok haxis)
        (fun token htoken => (hrenders token htoken).failsOnly) fun _ => id) fun _ _ => .of_ok _

/-- The document of the colors or of the dimensions declares a property twice in one of its
blocks exactly when a token without a mode shares its name with another one or with a token
of a mode of the root block. If every token has a value, the document fails only over two
tokens of one mode that share a name. -/
theorem outcome_of_categoryText (hcategory : category = "color" ∨ category = "dimension") :
    (∀ text, (assembly.categoryText category tokens dictionary).result = .ok text →
      ∃ items, text = itemsText items ∧
        (Category.select category tokens ≠ [] → (assembly.categoryItems category
          (Category.select category tokens) dictionary).result = .ok items) ∧
        (Item.AllDeclareOnce items ↔ ∀ axis modes, RootModes assembly category axis modes →
          OwnNamesFree axis modes (shownOf category tokens) assembly.options.lead)) ∧
    ∀ error axis modes,
      (assembly.categoryText category tokens dictionary).result = .error error →
      RootModes assembly category axis modes →
      (∀ token ∈ shownOf category tokens, assembly.options.Renders dictionary token) →
      IsCollision (shownOf category tokens) assembly.options.lead error := by
  rw [result_categoryText]
  by_cases hnone : Category.select category tokens = []
  · have hfree : ∀ axis modes, RootModes assembly category axis modes →
        OwnNamesFree axis modes (shownOf category tokens) assembly.options.lead := by
      intro axis modes _
      rw [shownOf, hnone]
      exact ⟨List.nodup_nil, by simp [ModeAxis.unmoded]⟩
    rw [if_pos (List.isEmpty_iff.2 hnone)]
    constructor
    · rintro _ ⟨⟩
      exact ⟨[], rfl, fun hsome => absurd hnone hsome, iff_of_true trivial hfree⟩
    · rintro _ _ _ ⟨⟩
  · rw [if_neg (List.isEmpty_iff.not.2 hnone)]
    constructor
    · intro text htext
      obtain ⟨items, hitems, rfl⟩ := Failing.map_eq_ok.1 htext
      exact ⟨items, rfl, fun _ => hitems, allDeclareOnce_iff_of_categoryItems hcategory hitems⟩
    · intro error axis modes herror hroot hrenders
      exact (failsOnly_categoryItems hroot hrenders).map itemsText error herror

/-! ### A color without a mode and the light color of its name -/

/-- A color, and the light color of the same name. -/
def paperTree : Object :=
  [("color", .object [
    ("paper", .object [("$type", .text "color"), ("$value", .text "#fff")]),
    ("light", .object [("paper", .object [("$type", .text "color"), ("$value", .text "#eee"),
      ("$extensions", .object [("mode", .text "light")])])])])]

def paper : Token :=
  ⟨["color", "paper"], "color-paper", some "color", .text "#fff", .text "#fff", none, none, [],
    none⟩

def lightPaper : Token :=
  ⟨["color", "light", "paper"], "color-light-paper", some "color", .text "#eee", .text "#eee",
    some "light", none, [("mode", .text "light")], none⟩

def papers : Dictionary where
  tokens := [paper, lightPaper]
  nodup_paths := by decide

theorem dictionary_papers : Loading.dictionaryOfTree paperTree true none = .ok papers := by
  have hauthored : Loading.tokensOf (Tree.Keys.of true) paperTree = .ok
      [⟨["color", "paper"], .text "color", .text "#fff", [], .null, none⟩,
        ⟨["color", "light", "paper"], .text "color", .text "#eee",
          [(.text "mode", .text "light")], .null, none⟩] := rfl
  rw [Loading.dictionaryOfTree, hauthored]
  rfl

/-- The root block of the papers, whichever the strategy. -/
def paperItems : List Item :=
  [.block ":root" [⟨"--color-paper", "#fff"⟩, ⟨"--color-paper", "#eee"⟩] []]

theorem result_categoryItems_papers (strategy : ColorStrategy) :
    (({ strategy } : Assembly).categoryItems "color" (Category.select "color" papers.tokens)
      papers).result = .ok paperItems := by
  cases strategy <;> rfl

theorem not_allDeclareOnce_papers : ¬ Item.AllDeclareOnce paperItems := by
  simp [paperItems, Item.AllDeclareOnce]

theorem outcome_of_categoryText_papers : ("color" = "color" ∨ "color" = "dimension") ∧
    ∃ axis modes, RootModes {} "color" axis modes ∧
      ¬ OwnNamesFree axis modes (shownOf "color" papers.tokens) none := by
  refine ⟨.inl rfl, ?_⟩
  have htext : (({} : Assembly).categoryText "color" papers.tokens papers).result =
      .ok (itemsText paperItems) := rfl
  obtain ⟨items, -, hitems, hiff⟩ := (outcome_of_categoryText (.inl rfl)).1 _ htext
  have hsame : items = paperItems := Except.ok.inj
    ((hitems (by decide)).symm.trans (result_categoryItems_papers .lightDarkFunction))
  rw [hsame] at hiff
  by_contra hshared
  apply not_allDeclareOnce_papers
  exact hiff.2 fun axis modes hroot => by_contra fun hfree => hshared ⟨axis, modes, hroot, hfree⟩

/-- A document of loaded colors in which one block declares a property twice. -/
theorem not_declaresOnce_papers : ∃ dictionary items,
    Loading.dictionaryOfTree paperTree true none = .ok dictionary ∧
    (∀ strategy : ColorStrategy,
      (({ strategy } : Assembly).categoryText "color" dictionary.tokens dictionary).result =
        .ok (itemsText items) ∧
      (({ strategy } : Assembly).categoryItems "color" (Category.select "color" dictionary.tokens)
        dictionary).result = .ok items) ∧
    ¬ Item.AllDeclareOnce items := by
  refine ⟨papers, paperItems, dictionary_papers, fun strategy => ⟨?_, ?_⟩,
    not_allDeclareOnce_papers⟩
  · cases strategy <;> rfl
  · exact result_categoryItems_papers strategy

end Assembly

end DesignTokens.Stylesheet
