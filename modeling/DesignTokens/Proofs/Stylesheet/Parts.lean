import DesignTokens.Proofs.Mode.Names
import DesignTokens.Proofs.Paired
import DesignTokens.Proofs.Traced
import DesignTokens.Stylesheet.Category

/-!
# The parts of a document, written out

A part comes to be when every token that it shows has a value and no two tokens of one
mode share a name. What it then consists of can be written down without the steps of the
run: every declaration is the text of one token, or of a light and a dark one.
-/

namespace DesignTokens.Stylesheet

variable {tokens : List Token} {dictionary : Dictionary} {options : RenderOptions}
  {axis : ModeAxis} {part : Part}

namespace RenderOptions

/-- The value of a token can be written. -/
def Renders (options : RenderOptions) (dictionary : Dictionary) (token : Token) : Prop :=
  ∃ text, (options.value token dictionary).result = .ok text

/-- The text of a token's value; a token without one has no text. -/
def text (options : RenderOptions) (dictionary : Dictionary) (token : Token) : String :=
  match (options.value token dictionary).result with
  | .ok text => text
  | .error _ => ""

theorem value_eq_ok {token : Token} {text : String} :
    (options.value token dictionary).result = .ok text ↔
      options.Renders dictionary token ∧ text = options.text dictionary token := by
  rw [Renders, RenderOptions.text]
  cases (options.value token dictionary).result <;> simp [eq_comm]

/-- The declaration of a token under a name. -/
def declaration (options : RenderOptions) (dictionary : Dictionary) (entry : String × Token) :
    Declaration :=
  .custom entry.1 (options.text dictionary entry.2)

theorem declare_eq_ok {entry : String × Token} {declaration : Declaration} :
    (options.declare dictionary entry.1 entry.2).result = .ok declaration ↔
      options.Renders dictionary entry.2 ∧ declaration = options.declaration dictionary entry := by
  rw [declare, Traced.map_eq_ok]
  simp only [value_eq_ok]
  constructor
  · rintro ⟨text, ⟨hrenders, rfl⟩, rfl⟩
    exact ⟨hrenders, rfl⟩
  · rintro ⟨hrenders, rfl⟩
    exact ⟨_, ⟨hrenders, rfl⟩, rfl⟩

/-- Tokens are declared exactly when each of them has a value. -/
theorem declareAll_eq_ok {named : List (String × Token)} {declarations : List Declaration} :
    (options.declareAll dictionary named).result = .ok declarations ↔
      (∀ entry ∈ named, options.Renders dictionary entry.2) ∧
        declarations = named.map (options.declaration dictionary) := by
  rw [declareAll, Traced.mapM_eq_ok]
  simp only [declare_eq_ok]
  rw [List.forall₂_and_left, Paired.forall₂_eq_map_iff]

theorem declareOwn_eq_ok {declarations : List Declaration} :
    (options.declareOwn dictionary tokens).result = .ok declarations ↔
      (∀ token ∈ tokens, options.Renders dictionary token) ∧
        declarations = (tokens.map fun token => (token.name, token)).map
          (options.declaration dictionary) := by
  rw [declareOwn, declareAll_eq_ok, List.forall_mem_map]

/-- The block of named tokens under a condition; without tokens there is none. -/
def mediaItems (options : RenderOptions) (dictionary : Dictionary) (condition : String)
    (named : List (String × Token)) : List Item :=
  if named.isEmpty then []
  else [.media condition options.selector (named.map (options.declaration dictionary))]

/-- A run that leaves the block out when it has no tokens asks for the same values as one that
always declares it. -/
theorem declareMedia_eq_ok {α : Type} (wrap : List Item → α) {condition : String}
    {named : List (String × Token)} {wrapped : α} :
    (if named.isEmpty then pure (wrap []) else
        options.declareAll dictionary named >>= fun declarations =>
          pure (wrap [.media condition options.selector declarations]) : Traced α).result =
        .ok wrapped ↔
      (∀ entry ∈ named, options.Renders dictionary entry.2) ∧
        wrapped = wrap (options.mediaItems dictionary condition named) := by
  rw [mediaItems]
  cases named with
  | nil => simp [eq_comm]
  | cons entry rest =>
      simp only [List.isEmpty_cons, Bool.false_eq_true, if_false]
      constructor
      · intro hrun
        obtain ⟨_, hdeclared, ⟨⟩⟩ := Traced.bind_eq_ok.1 hrun
        obtain ⟨hrenders, rfl⟩ := declareAll_eq_ok.1 hdeclared
        exact ⟨hrenders, rfl⟩
      · rintro ⟨hrenders, rfl⟩
        exact Traced.bind_eq_ok.2 ⟨_, declareAll_eq_ok.2 ⟨hrenders, rfl⟩, rfl⟩

end RenderOptions

/-! ## Colors -/

/-- The value of a property under each of the two color schemes. -/
inductive Tone where
  | same (value : String)
  | pair (light dark : String)
deriving DecidableEq, Repr

/-- The declaration of a property with its values for both schemes in one. -/
def Tone.declaration : String × Tone → Declaration
  | (name, .same value) => .custom name value
  | (name, .pair light dark) => .custom name ("light-dark(" ++ light ++ ", " ++ dark ++ ")")

/-- The color tokens of a document by the scheme under which they hold. -/
structure Palette where
  always : List Token
  light : List (String × Token)
  dark : List (String × Token)

namespace Palette

/-- The tokens bound to the two modes of an axis under their names, and all others. -/
def ofAxis (axis : ModeAxis) (tokens : List Token) (lead : Option String) :
    Except Error Palette :=
  match axis.second? with
  | none => .error (.shape .noSecondMode)
  | some darkMode => do
    let light ← Mode.byName (axis.bucket tokens axis.default) axis.default lead
    let dark ← Mode.byName (axis.bucket tokens darkMode) darkMode lead
    return ⟨axis.unmoded tokens, light, dark⟩

variable (palette : Palette)

/-- Every color has a value. -/
structure Renders (options : RenderOptions) (dictionary : Dictionary) : Prop where
  always : ∀ token ∈ palette.always, options.Renders dictionary token
  light : ∀ entry ∈ palette.light, options.Renders dictionary entry.2
  dark : ∀ entry ∈ palette.dark, options.Renders dictionary entry.2

/-- The tokens that hold under both schemes under their own names. -/
def own : List (String × Token) :=
  palette.always.map fun token => (token.name, token)

/-- The dark tokens without a light one of their name. -/
def darkOnly : List (String × Token) :=
  palette.dark.filter fun entry => !Entries.contains palette.light entry.1

/-- The tone of a light token, together with the dark one of its name. -/
def lightTone (options : RenderOptions) (dictionary : Dictionary) (entry : String × Token) : Tone :=
  match Entries.get? palette.dark entry.1 with
  | none => .same (options.text dictionary entry.2)
  | some dark => .pair (options.text dictionary entry.2) (options.text dictionary dark)

/-- The properties of the palette with both of their values, in the order in which they
are declared together. -/
def tones (options : RenderOptions) (dictionary : Dictionary) : List (String × Tone) :=
  let same (entry : String × Token) := (entry.1, Tone.same (options.text dictionary entry.2))
  palette.own.map same ++
    palette.light.map (fun entry => (entry.1, palette.lightTone options dictionary entry)) ++
    palette.darkOnly.map same

/-- The block of the colors that hold where dark is preferred. -/
def darkItems (options : RenderOptions) (dictionary : Dictionary) : List Item :=
  if palette.dark.isEmpty then []
  else [.media prefersDark options.selector (palette.dark.map (options.declaration dictionary))]

theorem darkItems_eq (options : RenderOptions) (dictionary : Dictionary) :
    palette.darkItems options dictionary =
      options.mediaItems dictionary prefersDark palette.dark := rfl

/-- The part that shows a palette: both values in one declaration, or the dark ones in a block
of their own. -/
def toPart (options : RenderOptions) (dictionary : Dictionary) : ColorStrategy → Part
  | .lightDarkFunction => ⟨(palette.tones options dictionary).map Tone.declaration, []⟩
  | .mediaQuery => ⟨(palette.own ++ palette.light).map (options.declaration dictionary),
      palette.darkItems options dictionary⟩

end Palette

variable {palette : Palette}

theorem declarePair_eq_ok {entry : String × Token} {declaration : Declaration} :
    (declarePair options dictionary palette.dark entry.1 entry.2).result = .ok declaration ↔
      (options.Renders dictionary entry.2 ∧
        ∀ token, Entries.get? palette.dark entry.1 = some token →
          options.Renders dictionary token) ∧
      declaration = Tone.declaration (entry.1, palette.lightTone options dictionary entry) := by
  rw [declarePair, Traced.bind_eq_ok, Palette.lightTone]
  simp only [RenderOptions.value_eq_ok]
  cases Entries.get? palette.dark entry.1 with
  | none =>
      constructor
      · rintro ⟨text, ⟨hrenders, rfl⟩, ⟨⟩⟩
        exact ⟨⟨hrenders, by simp⟩, rfl⟩
      · rintro ⟨⟨hrenders, -⟩, rfl⟩
        exact ⟨_, ⟨hrenders, rfl⟩, rfl⟩
  | some dark =>
      constructor
      · rintro ⟨text, ⟨hrenders, rfl⟩, hrest⟩
        obtain ⟨darkText, hdarkText, ⟨⟩⟩ := Traced.bind_eq_ok.1 hrest
        obtain ⟨hdark, rfl⟩ := RenderOptions.value_eq_ok.1 hdarkText
        exact ⟨⟨hrenders, by simpa using hdark⟩, rfl⟩
      · rintro ⟨⟨hrenders, hdark⟩, rfl⟩
        have hdarkText := RenderOptions.value_eq_ok.2 ⟨hdark dark rfl, rfl⟩
        exact ⟨_, ⟨hrenders, rfl⟩, Traced.bind_eq_ok.2 ⟨_, hdarkText, rfl⟩⟩

theorem mapM_declarePair_eq_ok (palette : Palette) {declarations : List Declaration} :
    (palette.light.mapM fun (name, token) =>
        declarePair options dictionary palette.dark name token).result = .ok declarations ↔
      (∀ entry ∈ palette.light, options.Renders dictionary entry.2 ∧
        ∀ token, Entries.get? palette.dark entry.1 = some token →
          options.Renders dictionary token) ∧
      declarations = palette.light.map fun entry =>
        Tone.declaration (entry.1, palette.lightTone options dictionary entry) := by
  rw [Traced.mapM_eq_ok]
  simp only [declarePair_eq_ok]
  rw [List.forall₂_and_left, Paired.forall₂_eq_map_iff]

namespace Palette

theorem ofAxis_eq_ok {darkMode : String} (hsecond : axis.second? = some darkMode)
    {lead : Option String} :
    ofAxis axis tokens lead = .ok palette ↔
      palette.always = axis.unmoded tokens ∧
        Mode.byName (axis.bucket tokens axis.default) axis.default lead = .ok palette.light ∧
        Mode.byName (axis.bucket tokens darkMode) darkMode lead = .ok palette.dark := by
  simp only [ofAxis, hsecond, Failing.bind_eq_ok]
  constructor
  · rintro ⟨light, hlight, dark, hdark, ⟨⟩⟩
    exact ⟨rfl, hlight, hdark⟩
  · rintro ⟨halways, hlight, hdark⟩
    refine ⟨_, hlight, _, hdark, ?_⟩
    rw [← halways]
    rfl

theorem ofAxis_ne_ok (hsecond : axis.second? = none) {lead : Option String} :
    ofAxis axis tokens lead ≠ .ok palette := by
  simp [ofAxis, hsecond]

/-- No mode has two tokens of one name. -/
structure Distinct (palette : Palette) : Prop where
  light : (Entries.keys palette.light).Nodup
  dark : (Entries.keys palette.dark).Nodup

section OfAxis

variable {lead : Option String} (hpalette : ofAxis axis tokens lead = .ok palette)

include hpalette

theorem exists_second_of_ofAxis : ∃ darkMode, axis.second? = some darkMode := by
  cases hsecond : axis.second? with
  | none => exact absurd hpalette (ofAxis_ne_ok hsecond)
  | some darkMode => exact ⟨darkMode, rfl⟩

theorem eq_of_ofAxis {darkMode : String} (hsecond : axis.second? = some darkMode) :
    palette = ⟨axis.unmoded tokens, Mode.entriesOf axis tokens lead axis.default,
      Mode.entriesOf axis tokens lead darkMode⟩ := by
  obtain ⟨halways, hlight, hdark⟩ := (ofAxis_eq_ok hsecond).1 hpalette
  rw [← halways, ← (Mode.byName_bucket_eq_ok.1 hlight).1, ← (Mode.byName_bucket_eq_ok.1 hdark).1]

theorem distinct_of_ofAxis : palette.Distinct := by
  obtain ⟨darkMode, hsecond⟩ := exists_second_of_ofAxis hpalette
  obtain ⟨-, hlight, hdark⟩ := (ofAxis_eq_ok hsecond).1 hpalette
  exact ⟨(Mode.byName_eq_ok.1 hlight).2, (Mode.byName_eq_ok.1 hdark).2⟩

/-- Every token of an axis of two modes is in the palette, under its name without its mode. -/
theorem mem_of_ofAxis (hpair : axis.IsPair) {token : Token} (hmem : token ∈ tokens) :
    (axis.nameOf lead token, token) ∈ palette.own ++ palette.light ++ palette.dark := by
  obtain ⟨darkMode, hsecond⟩ := exists_second_of_ofAxis hpalette
  rw [eq_of_ofAxis hpalette hsecond, List.mem_append, List.mem_append]
  rcases Mode.mem_own_or_mem_entriesOf axis lead hmem with hown | ⟨mode, hmode, hbound⟩
  · exact .inl (.inl hown)
  by_cases hdefault : mode = axis.default
  · rw [hdefault] at hbound
    exact .inl (.inr hbound)
  · have hsame : mode = darkMode :=
      Option.some.inj ((hpair mode hmode hdefault).symm.trans hsecond)
    rw [hsame] at hbound
    exact .inr hbound

theorem mem_tokens_of_ofAxis {entry : String × Token}
    (hentry : entry ∈ palette.own ++ palette.light ++ palette.dark) : entry.2 ∈ tokens := by
  obtain ⟨darkMode, hsecond⟩ := exists_second_of_ofAxis hpalette
  rw [eq_of_ofAxis hpalette hsecond, List.mem_append, List.mem_append] at hentry
  rcases hentry with (hown | hlight) | hdark
  · obtain ⟨token, htoken, rfl⟩ := List.mem_map.1 hown
    exact axis.unmoded_subset tokens htoken
  · exact Mode.mem_of_mem_entriesOf hlight
  · exact Mode.mem_of_mem_entriesOf hdark

end OfAxis

theorem Renders.forall_mem (hrenders : palette.Renders options dictionary) :
    ∀ entry ∈ palette.own ++ palette.light ++ palette.dark, options.Renders dictionary entry.2 := by
  intro entry hentry
  rw [List.mem_append, List.mem_append] at hentry
  rcases hentry with (hown | hlight) | hdark
  · obtain ⟨token, htoken, rfl⟩ := List.mem_map.1 hown
    exact hrenders.always token htoken
  · exact hrenders.light entry hlight
  · exact hrenders.dark entry hdark

/-- A dark token is declared with the light one of its name, or else alone. -/
theorem forall_mem_dark_iff {P : Token → Prop} (hnodup : (Entries.keys palette.dark).Nodup) :
    (∀ entry ∈ palette.dark, P entry.2) ↔
      (∀ entry ∈ palette.light, ∀ token, Entries.get? palette.dark entry.1 = some token →
        P token) ∧ ∀ entry ∈ palette.darkOnly, P entry.2 := by
  constructor
  · intro hdark
    constructor
    · intro entry _ token hfound
      exact hdark _ (Entries.mem_of_get?_eq_some hfound)
    · intro entry hentry
      exact hdark entry (List.mem_filter.1 hentry).1
  · rintro ⟨hpaired, halone⟩ entry hentry
    by_cases hlight : entry.1 ∈ Entries.keys palette.light
    · obtain ⟨light, hmem, hname⟩ := List.mem_map.1 hlight
      apply hpaired light hmem
      rw [hname]
      exact Entries.get?_eq_some_of_mem hnodup hentry
    · apply halone entry
      rw [← Entries.get?_eq_none_iff] at hlight
      simpa [darkOnly, Entries.contains] using ⟨hentry, hlight⟩

theorem map_declaration_tones (options : RenderOptions) (dictionary : Dictionary) :
    (palette.tones options dictionary).map Tone.declaration =
      palette.own.map (options.declaration dictionary) ++
        palette.light.map (fun entry =>
          Tone.declaration (entry.1, palette.lightTone options dictionary entry)) ++
        palette.darkOnly.map (options.declaration dictionary) := by
  simp only [tones, List.map_append, List.map_map]
  rfl

theorem mem_keys_darkOnly {name : String} :
    name ∈ Entries.keys palette.darkOnly ↔
      name ∈ Entries.keys palette.dark ∧ name ∉ Entries.keys palette.light := by
  rw [← Entries.get?_eq_none_iff, Entries.keys, Entries.keys, List.mem_map, List.mem_map]
  simp only [darkOnly, List.mem_filter, Entries.contains]
  constructor
  · rintro ⟨entry, ⟨hentry, hfree⟩, rfl⟩
    exact ⟨⟨entry, hentry, rfl⟩, by simpa using hfree⟩
  · rintro ⟨⟨entry, hentry, rfl⟩, hfree⟩
    exact ⟨entry, ⟨hentry, by simp [hfree]⟩, rfl⟩

theorem keys_tones (palette : Palette) (options : RenderOptions) (dictionary : Dictionary) :
    Entries.keys (palette.tones options dictionary) = Entries.keys palette.own ++
      Entries.keys palette.light ++ Entries.keys palette.darkOnly := by
  simp only [tones, Entries.keys, List.map_append, List.map_map, Function.comp_def]

/-- Both values of a property are declared together, but under every name of the palette. -/
theorem mem_keys_tones {name : String} :
    name ∈ Entries.keys (palette.tones options dictionary) ↔
      name ∈ Entries.keys (palette.own ++ palette.light ++ palette.dark) := by
  rw [keys_tones, List.mem_append, List.mem_append, mem_keys_darkOnly]
  simp only [Entries.keys, List.map_append, List.mem_append]
  tauto

end Palette

/-- Colors are declared with both values in one. -/
theorem lightDarkPart_eq_ok :
    (lightDarkPart tokens dictionary options axis).result = .ok part ↔
      ∃ palette, Palette.ofAxis axis tokens options.lead = .ok palette ∧
        palette.Renders options dictionary ∧
        part = ⟨(palette.tones options dictionary).map Tone.declaration, []⟩ := by
  rw [lightDarkPart]
  cases hsecond : axis.second? with
  | none =>
      constructor
      · rintro ⟨⟩
      · rintro ⟨palette, hpalette, -⟩
        exact absurd hpalette (Palette.ofAxis_ne_ok hsecond)
  | some darkMode =>
      simp only [Palette.map_declaration_tones]
      constructor
      · intro hpart
        obtain ⟨unmoded, hunmoded, hpart⟩ := Traced.bind_eq_ok.1 hpart
        obtain ⟨light, hlight, hpart⟩ := Traced.bind_eq_ok.1 hpart
        obtain ⟨dark, hdark, hpart⟩ := Traced.bind_eq_ok.1 hpart
        obtain ⟨paired, hpaired, hpart⟩ := Traced.bind_eq_ok.1 hpart
        obtain ⟨alone, halone, hpart⟩ := Traced.bind_eq_ok.1 hpart
        cases hpart
        let palette : Palette := ⟨axis.unmoded tokens, light, dark⟩
        have hpalette : Palette.ofAxis axis tokens options.lead = .ok palette :=
          (Palette.ofAxis_eq_ok hsecond).2 ⟨rfl, hlight, hdark⟩
        obtain ⟨halways, rfl⟩ := RenderOptions.declareOwn_eq_ok.1 hunmoded
        obtain ⟨hrenders, rfl⟩ := (mapM_declarePair_eq_ok palette).1 hpaired
        obtain ⟨hdarkOnly, rfl⟩ := RenderOptions.declareAll_eq_ok.1 halone
        have hdistinct := Palette.distinct_of_ofAxis hpalette
        have hdarkRenders : ∀ entry ∈ palette.dark, options.Renders dictionary entry.2 :=
          (Palette.forall_mem_dark_iff hdistinct.dark).2
            ⟨fun entry hentry => (hrenders entry hentry).2, hdarkOnly⟩
        exact ⟨palette, hpalette,
          ⟨halways, fun entry hentry => (hrenders entry hentry).1, hdarkRenders⟩, rfl⟩
      · rintro ⟨palette, hpalette, hrenders, rfl⟩
        have hdistinct := Palette.distinct_of_ofAxis hpalette
        obtain ⟨hpaired, hdarkOnly⟩ := (Palette.forall_mem_dark_iff hdistinct.dark).1 hrenders.dark
        obtain ⟨halways, hlight, hdark⟩ := (Palette.ofAxis_eq_ok hsecond).1 hpalette
        rw [← halways]
        refine Traced.bind_eq_ok.2 ⟨_, RenderOptions.declareOwn_eq_ok.2 ⟨hrenders.always, rfl⟩, ?_⟩
        refine Traced.bind_eq_ok.2 ⟨palette.light, hlight, ?_⟩
        refine Traced.bind_eq_ok.2 ⟨palette.dark, hdark, ?_⟩
        refine Traced.bind_eq_ok.2 ⟨_, (mapM_declarePair_eq_ok palette).2
          ⟨fun entry hentry => ⟨hrenders.light entry hentry, hpaired entry hentry⟩, rfl⟩, ?_⟩
        exact Traced.bind_eq_ok.2 ⟨_, RenderOptions.declareAll_eq_ok.2 ⟨hdarkOnly, rfl⟩, rfl⟩

/-- Colors are declared with their light values, and the dark ones where dark is preferred. -/
theorem mediaQueryPart_eq_ok :
    (mediaQueryPart tokens dictionary options axis).result = .ok part ↔
      ∃ palette, Palette.ofAxis axis tokens options.lead = .ok palette ∧
        palette.Renders options dictionary ∧
        part = ⟨(palette.own ++ palette.light).map (options.declaration dictionary),
          palette.darkItems options dictionary⟩ := by
  rw [mediaQueryPart]
  cases hsecond : axis.second? with
  | none =>
      constructor
      · rintro ⟨⟩
      · rintro ⟨palette, hpalette, -⟩
        exact absurd hpalette (Palette.ofAxis_ne_ok hsecond)
  | some darkMode =>
      simp only [List.map_append]
      constructor
      · intro hpart
        obtain ⟨_, hunmoded, hpart⟩ := Traced.bind_eq_ok.1 hpart
        obtain ⟨light, hlight, hpart⟩ := Traced.bind_eq_ok.1 hpart
        obtain ⟨_, hdeclared, hpart⟩ := Traced.bind_eq_ok.1 hpart
        obtain ⟨dark, hdark, hpart⟩ := Traced.bind_eq_ok.1 hpart
        obtain ⟨halways, rfl⟩ := RenderOptions.declareOwn_eq_ok.1 hunmoded
        obtain ⟨hlightRenders, rfl⟩ := RenderOptions.declareAll_eq_ok.1 hdeclared
        obtain ⟨hdarkRenders, rfl⟩ := (RenderOptions.declareMedia_eq_ok (Part.mk _)).1 hpart
        exact ⟨⟨axis.unmoded tokens, light, dark⟩,
          (Palette.ofAxis_eq_ok hsecond).2 ⟨rfl, hlight, hdark⟩,
          ⟨halways, hlightRenders, hdarkRenders⟩, rfl⟩
      · rintro ⟨palette, hpalette, hrenders, rfl⟩
        obtain ⟨halways, hlight, hdark⟩ := (Palette.ofAxis_eq_ok hsecond).1 hpalette
        rw [← halways]
        refine Traced.bind_eq_ok.2 ⟨_, RenderOptions.declareOwn_eq_ok.2 ⟨hrenders.always, rfl⟩, ?_⟩
        refine Traced.bind_eq_ok.2 ⟨palette.light, hlight, ?_⟩
        refine Traced.bind_eq_ok.2 ⟨_, RenderOptions.declareAll_eq_ok.2 ⟨hrenders.light, rfl⟩, ?_⟩
        refine Traced.bind_eq_ok.2 ⟨palette.dark, hdark, ?_⟩
        exact (RenderOptions.declareMedia_eq_ok (Part.mk _)).2 ⟨hrenders.dark, rfl⟩

/-- The color tokens among tokens. -/
def colorsOf (tokens : List Token) : List Token :=
  tokens.filter fun token => token.type == some "color"

/-- Either way the colors of a document are those of one palette. -/
theorem colorPart_eq_ok {strategy : ColorStrategy} :
    (colorPart tokens dictionary options strategy axis).result = .ok part ↔
      ∃ palette, Palette.ofAxis axis (colorsOf tokens) options.lead = .ok palette ∧
        palette.Renders options dictionary ∧
        part = palette.toPart options dictionary strategy := by
  cases strategy with
  | lightDarkFunction =>
      change (lightDarkPart (colorsOf tokens) dictionary options axis).result = .ok part ↔ _
      exact lightDarkPart_eq_ok
  | mediaQuery =>
      change (mediaQueryPart (colorsOf tokens) dictionary options axis).result = .ok part ↔ _
      exact mediaQueryPart_eq_ok

/-! ## Dimensions -/

variable {table : List Breakpoint}

/-- The condition of the block of a breakpoint. -/
def minWidthCondition (breakpoint : Breakpoint) : String :=
  "(min-width: " ++ breakpoint.minWidth ++ ")"

/-- The dimension tokens among tokens. -/
def dimensionsOf (tokens : List Token) : List Token :=
  tokens.filter fun token => token.type == some "dimension"

/-- The block of a breakpoint, which has none if it is the default or has no tokens. -/
def blockOf (options : RenderOptions) (dictionary : Dictionary) (axis : ModeAxis)
    (dimensions : List Token) (breakpoint : Breakpoint) : List Item :=
  let entries := Mode.entriesOf axis dimensions options.lead breakpoint.name
  if breakpoint.name = axis.default ∨ entries = [] then []
  else [.media (minWidthCondition breakpoint) options.selector
    (entries.map (options.declaration dictionary))]

/-- The tokens of one mode of an axis have distinct names and a value each. -/
structure Declarable (options : RenderOptions) (dictionary : Dictionary) (axis : ModeAxis)
    (dimensions : List Token) (mode : String) : Prop where
  distinct : (Entries.keys (Mode.entriesOf axis dimensions options.lead mode)).Nodup
  renders : ∀ entry ∈ Mode.entriesOf axis dimensions options.lead mode,
    options.Renders dictionary entry.2

theorem blockOf_eq (options : RenderOptions) (dictionary : Dictionary) (axis : ModeAxis)
    (dimensions : List Token) (breakpoint : Breakpoint) :
    blockOf options dictionary axis dimensions breakpoint =
      if breakpoint.name = axis.default then []
      else options.mediaItems dictionary (minWidthCondition breakpoint)
        (Mode.entriesOf axis dimensions options.lead breakpoint.name) := by
  by_cases hdefault : breakpoint.name = axis.default <;>
    simp [blockOf, RenderOptions.mediaItems, hdefault, List.isEmpty_iff]

theorem widthBlock_eq_ok {breakpoint : Breakpoint} {items : List Item} :
    (widthBlock tokens dictionary options axis breakpoint).result = .ok items ↔
      (breakpoint.name ≠ axis.default → Declarable options dictionary axis tokens breakpoint.name) ∧
        items = blockOf options dictionary axis tokens breakpoint := by
  rw [widthBlock, blockOf_eq]
  by_cases hdefault : breakpoint.name = axis.default
  · rw [if_pos hdefault, if_pos hdefault]
    constructor
    · rintro ⟨⟩
      exact ⟨absurd hdefault, rfl⟩
    · rintro ⟨-, rfl⟩
      rfl
  · rw [if_neg hdefault, if_neg hdefault]
    constructor
    · intro hblock
      obtain ⟨_, hentries, hblock⟩ := Traced.bind_eq_ok.1 hblock
      obtain ⟨rfl, hdistinct⟩ := Mode.byName_bucket_eq_ok.1 hentries
      obtain ⟨hrenders, rfl⟩ := (RenderOptions.declareMedia_eq_ok id).1 hblock
      exact ⟨fun _ => ⟨hdistinct, hrenders⟩, rfl⟩
    · rintro ⟨hdeclarable, rfl⟩
      obtain ⟨hdistinct, hrenders⟩ := hdeclarable hdefault
      refine Traced.bind_eq_ok.2 ⟨_, Mode.byName_bucket_eq_ok.2 ⟨rfl, hdistinct⟩, ?_⟩
      exact (RenderOptions.declareMedia_eq_ok id).2 ⟨hrenders, rfl⟩

/-- The blocks of a table ask for the values of every mode but the default one. -/
theorem mapM_widthBlock_eq_ok (haxis : Breakpoint.axis table = .ok axis)
    {blocks : List (List Item)} :
    ((Breakpoint.ascending table).mapM (widthBlock tokens dictionary options axis)).result =
        .ok blocks ↔
      (∀ mode ∈ axis.values, mode ≠ axis.default →
        Declarable options dictionary axis tokens mode) ∧
      blocks = (Breakpoint.ascending table).map (blockOf options dictionary axis tokens) := by
  rw [Traced.mapM_eq_ok]
  simp only [widthBlock_eq_ok]
  rw [List.forall₂_and_left, Paired.forall₂_eq_map_iff, Breakpoint.values_of_axis haxis,
    List.forall_mem_map]

/-- Each token has a value and no mode two tokens of one name when the tokens without a mode
have values and every mode can be declared. -/
theorem renders_and_nodup_iff :
    ((∀ token ∈ tokens, options.Renders dictionary token) ∧
      ∀ mode ∈ axis.values, (Entries.keys (Mode.entriesOf axis tokens options.lead mode)).Nodup) ↔
    (∀ token ∈ axis.unmoded tokens, options.Renders dictionary token) ∧
      ∀ mode ∈ axis.values, Declarable options dictionary axis tokens mode := by
  rw [axis.forall_mem_iff]
  constructor
  · rintro ⟨⟨hown, hbound⟩, hdistinct⟩
    exact ⟨hown, fun mode hmode =>
      ⟨hdistinct mode hmode, Mode.forall_mem_entriesOf.2 (hbound mode hmode)⟩⟩
  · rintro ⟨hown, hmodes⟩
    exact ⟨⟨hown, fun mode hmode => Mode.forall_mem_entriesOf.1 (hmodes mode hmode).renders⟩,
      fun mode hmode => (hmodes mode hmode).distinct⟩

/-- The root block has the dimensions without a breakpoint and those of the default one. -/
def widthPartOf (options : RenderOptions) (dictionary : Dictionary) (axis : ModeAxis)
    (dimensions : List Token) (table : List Breakpoint) : Part :=
  ⟨((axis.unmoded dimensions).map (fun token => (token.name, token)) ++
      Mode.entriesOf axis dimensions options.lead axis.default).map
        (options.declaration dictionary),
    (Breakpoint.ascending table).flatMap (blockOf options dictionary axis dimensions)⟩

/-- Dimensions are declared when each of them has a value and no breakpoint has two of one
name. -/
theorem widthPart_eq_ok :
    (widthPart tokens dictionary options table).result = .ok part ↔
      ∃ axis, Breakpoint.axis table = .ok axis ∧
        (∀ token ∈ dimensionsOf tokens, options.Renders dictionary token) ∧
        (∀ mode ∈ axis.values, (Entries.keys
          (Mode.entriesOf axis (dimensionsOf tokens) options.lead mode)).Nodup) ∧
        part = widthPartOf options dictionary axis (dimensionsOf tokens) table := by
  constructor
  · intro hpart
    obtain ⟨axis, haxis, hpart⟩ := Traced.bind_eq_ok.1 hpart
    obtain ⟨_, hunmoded, hpart⟩ := Traced.bind_eq_ok.1 hpart
    obtain ⟨_, hbase, hpart⟩ := Traced.bind_eq_ok.1 hpart
    obtain ⟨_, hdeclared, hpart⟩ := Traced.bind_eq_ok.1 hpart
    obtain ⟨blocks, hblocks, hpart⟩ := Traced.bind_eq_ok.1 hpart
    cases hpart
    obtain ⟨hown, rfl⟩ := RenderOptions.declareOwn_eq_ok.1 hunmoded
    obtain ⟨rfl, hdistinct⟩ := Mode.byName_bucket_eq_ok.1 hbase
    obtain ⟨hdefault, rfl⟩ := RenderOptions.declareAll_eq_ok.1 hdeclared
    obtain ⟨hothers, rfl⟩ := (mapM_widthBlock_eq_ok haxis).1 hblocks
    have hmodes : ∀ mode ∈ axis.values,
        Declarable options dictionary axis (dimensionsOf tokens) mode := by
      intro mode hmode
      by_cases hsame : mode = axis.default
      · subst hsame
        exact ⟨hdistinct, hdefault⟩
      · exact hothers mode hmode hsame
    obtain ⟨hrenders, hnodup⟩ := renders_and_nodup_iff.2 ⟨hown, hmodes⟩
    refine ⟨axis, haxis, hrenders, hnodup, ?_⟩
    rw [widthPartOf, List.map_append, List.flatMap_def]
    rfl
  · rintro ⟨axis, haxis, hrenders, hnodup, rfl⟩
    obtain ⟨hown, hmodes⟩ := renders_and_nodup_iff.1 ⟨hrenders, hnodup⟩
    obtain ⟨hbase, hdefault⟩ := hmodes axis.default axis.default_mem
    refine Traced.bind_eq_ok.2 ⟨axis, haxis, ?_⟩
    refine Traced.bind_eq_ok.2 ⟨_, RenderOptions.declareOwn_eq_ok.2 ⟨hown, rfl⟩, ?_⟩
    refine Traced.bind_eq_ok.2 ⟨_, Mode.byName_bucket_eq_ok.2 ⟨rfl, hbase⟩, ?_⟩
    refine Traced.bind_eq_ok.2 ⟨_, RenderOptions.declareAll_eq_ok.2 ⟨hdefault, rfl⟩, ?_⟩
    refine Traced.bind_eq_ok.2 ⟨_, (mapM_widthBlock_eq_ok haxis).2
      ⟨fun mode hmode _ => hmodes mode hmode, rfl⟩, ?_⟩
    rw [widthPartOf, List.map_append, List.flatMap_def]
    rfl

/-- Without dimensions the breakpoints add nothing. -/
theorem result_widthPart_of_forall_ne (htable : table ≠ [])
    (hnone : ∀ token ∈ tokens, token.type ≠ some "dimension") :
    (widthPart tokens dictionary options table).result = .ok ⟨[], []⟩ := by
  have hdimensions : dimensionsOf tokens = [] := by simpa [dimensionsOf] using hnone
  obtain ⟨axis, haxis⟩ := Breakpoint.exists_axis_eq_ok htable
  rw [widthPart_eq_ok]
  refine ⟨axis, haxis, ?_, ?_, ?_⟩
  · simp [hdimensions]
  · simp [hdimensions, Entries.keys]
  · simp [hdimensions, widthPartOf, blockOf, ModeAxis.unmoded]

/-! ## All categories in one document -/

/-- The combined document has plain properties, colors and dimensions, and then the text
styles. -/
theorem Assembly.combinedItems_eq_ok {assembly : Assembly} {items : List Item} :
    (assembly.combinedItems tokens dictionary).result = .ok items ↔
      ∃ colors widths styles,
        (∀ token ∈ tokens.filter isPlainProperty, assembly.options.Renders dictionary token) ∧
        (colorPart tokens dictionary assembly.options assembly.strategy
          assembly.colorAxis).result = .ok colors ∧
        (widthPart tokens dictionary assembly.options assembly.breakpoints).result =
          .ok widths ∧
        (typographyItems (tokens.filter Typography.isComposite) dictionary assembly.options
          assembly.elements).result = .ok styles ∧
        items = (Part.mk (((tokens.filter isPlainProperty).map fun token =>
          (token.name, token)).map (assembly.options.declaration dictionary)) [] ++ colors ++
            widths).items assembly.options.selector ++ styles := by
  have hnothing : (typographyItems [] dictionary assembly.options assembly.elements).result =
      .ok [] := rfl
  constructor
  · intro hitems
    obtain ⟨_, hothers, hitems⟩ := Traced.bind_eq_ok.1 hitems
    obtain ⟨colors, hcolors, hitems⟩ := Traced.bind_eq_ok.1 hitems
    obtain ⟨widths, hwidths, hitems⟩ := Traced.bind_eq_ok.1 hitems
    obtain ⟨hplain, rfl⟩ := RenderOptions.declareOwn_eq_ok.1 hothers
    simp only [List.isEmpty_iff] at hitems
    split at hitems
    · next hnone =>
        cases hitems
        rw [hnone]
        exact ⟨colors, widths, [], hplain, hcolors, hwidths, hnothing, rfl⟩
    · obtain ⟨styles, hstyles, hitems⟩ := Traced.bind_eq_ok.1 hitems
      cases hitems
      exact ⟨colors, widths, styles, hplain, hcolors, hwidths, hstyles, rfl⟩
  · rintro ⟨colors, widths, styles, hplain, hcolors, hwidths, hstyles, rfl⟩
    refine Traced.bind_eq_ok.2 ⟨_, RenderOptions.declareOwn_eq_ok.2 ⟨hplain, rfl⟩, ?_⟩
    refine Traced.bind_eq_ok.2 ⟨colors, hcolors, Traced.bind_eq_ok.2 ⟨widths, hwidths, ?_⟩⟩
    simp only [List.isEmpty_iff]
    split
    · next hnone =>
        rw [hnone, hnothing] at hstyles
        cases hstyles
        rfl
    · exact Traced.bind_eq_ok.2 ⟨styles, hstyles, rfl⟩

end DesignTokens.Stylesheet
