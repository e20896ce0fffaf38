import Mathlib.Data.List.Perm.Basic
import DesignTokens.Proofs.Entries
import DesignTokens.Proofs.Stylesheet.Properties

/-!
# The sources of declarations

Every token that a part shows is the source of exactly one of its declarations: alone, or
together with the token that has the same name in the other color scheme.
-/

namespace DesignTokens.Stylesheet

open scoped List

/-! ## Accounts -/

/-- Every token is a source of one declaration, and every declaration is accounted for by its
sources. -/
def Accounts (Declares : List Token → Declaration → Prop) (tokens : List Token)
    (declarations : List Declaration) : Prop :=
  ∃ sources, sources.flatten.Perm tokens ∧ List.Forall₂ Declares sources declarations

namespace Accounts

variable {Declares : List Token → Declaration → Prop} {tokens others : List Token}
  {declarations more : List Declaration}

theorem of_perm (haccounts : Accounts Declares tokens declarations) (hperm : tokens.Perm others) :
    Accounts Declares others declarations := by
  obtain ⟨sources, hsources, hdeclares⟩ := haccounts
  exact ⟨sources, hsources.trans hperm, hdeclares⟩

theorem append (hfirst : Accounts Declares tokens declarations)
    (hsecond : Accounts Declares others more) :
    Accounts Declares (tokens ++ others) (declarations ++ more) := by
  obtain ⟨sources, hsources, hdeclares⟩ := hfirst
  obtain ⟨rest, hrest, hmore⟩ := hsecond
  refine ⟨sources ++ rest, ?_, List.rel_append hdeclares hmore⟩
  rw [List.flatten_append]
  exact hsources.append hrest

variable {α : Type} {items : List α}

theorem flatMap {f : α → List Token} {g : α → List Declaration}
    (hall : ∀ item ∈ items, Accounts Declares (f item) (g item)) :
    Accounts Declares (items.flatMap f) (items.flatMap g) := by
  induction items with
  | nil => exact ⟨[], .refl _, .nil⟩
  | cons item items ih =>
      rw [List.forall_mem_cons] at hall
      exact hall.1.append (ih hall.2)

theorem map {f : α → List Token} {g : α → Declaration}
    (hall : ∀ item ∈ items, Declares (f item) (g item)) :
    Accounts Declares (items.flatMap f) (items.map g) := by
  rw [← List.flatMap_singleton' (items.map g), List.flatMap_map]
  apply flatMap
  intro item hitem
  exact ⟨[f item], by simp, .cons (hall item hitem) .nil⟩

/-- Declarations of one token each. -/
theorem named {named : List (String × Token)} {g : String × Token → Declaration}
    (hall : ∀ entry ∈ named, Declares [entry.2] (g entry)) :
    Accounts Declares (named.map Prod.snd) (named.map g) := by
  rw [← List.flatMap_singleton' (named.map Prod.snd), List.flatMap_map]
  exact map hall

/-- Declarations of tokens under their own names. -/
theorem own {options : RenderOptions} {dictionary : Dictionary}
    (hall : ∀ token ∈ tokens, Declares [token]
      (options.declaration dictionary (token.name, token))) :
    Accounts Declares tokens ((tokens.map fun token => (token.name, token)).map
      (options.declaration dictionary)) := by
  have hnamed : (tokens.map fun token => (token.name, token)).map Prod.snd = tokens := by
    simp [Function.comp_def]
  have haccounts := named (List.forall_mem_map.2 hall)
  rwa [hnamed] at haccounts

end Accounts

/-! ## Who declares a token -/

namespace Assembly

variable (assembly : Assembly)

/-- A light and a dark color of one name, which are declared together. -/
structure Shares (light dark : Token) : Prop where
  strategy : assembly.strategy = .lightDarkFunction
  light_type : light.type = some "color"
  dark_type : dark.type = some "color"
  light_mode : light.mode = some assembly.colorAxis.default
  dark_mode : ∃ mode ∈ assembly.colorAxis.second?, dark.mode = some mode
  name : light.nameWithout light.mode assembly.options.lead =
    dark.nameWithout dark.mode assembly.options.lead

/-- The token shares its declaration with none of the tokens. -/
def IsAlone (tokens : List Token) (token : Token) : Prop :=
  ∀ other ∈ tokens, ¬ assembly.Shares token other ∧ ¬ assembly.Shares other token

/-- The sources of a declaration: one token under its name without the mode that it is bound
to, or a light and a dark one that share their name. -/
inductive Declares (tokens : List Token) (dictionary : Dictionary) :
    List Token → Declaration → Prop
  | alone (token : Token) (value : String) : assembly.IsAlone tokens token →
      (assembly.options.value token dictionary).result = .ok value →
      Declares tokens dictionary [token] (.custom
        (token.nameWithout (assembly.boundMode? token) assembly.options.lead) value)
  | shared (light dark : Token) (lightValue darkValue : String) : assembly.Shares light dark →
      (assembly.options.value light dictionary).result = .ok lightValue →
      (assembly.options.value dark dictionary).result = .ok darkValue →
      Declares tokens dictionary [light, dark] (.custom
        (light.nameWithout (assembly.boundMode? light) assembly.options.lead)
        ("light-dark(" ++ lightValue ++ ", " ++ darkValue ++ ")"))

variable {assembly} {tokens : List Token} {dictionary : Dictionary} {token : Token}

theorem isAlone_of_mode (hmode : ∀ mode ∈ token.mode, mode ∉ assembly.colorAxis.values) :
    assembly.IsAlone tokens token := by
  intro other _
  constructor
  · intro hshares
    exact hmode _ hshares.light_mode assembly.colorAxis.default_mem
  · intro hshares
    obtain ⟨mode, hsecond, hdark⟩ := hshares.dark_mode
    exact hmode mode hdark (List.mem_of_find?_eq_some hsecond)

theorem isAlone_of_mediaQuery (hstrategy : assembly.strategy = .mediaQuery) :
    assembly.IsAlone tokens token := by
  have hnone : ∀ light dark, ¬ assembly.Shares light dark := by
    intro light dark hshares
    cases hstrategy.symm.trans hshares.strategy
  exact fun other _ => ⟨hnone token other, hnone other token⟩

/-- A token is declared under its own name if its mode is none of its type. -/
theorem nameWithout_boundMode?_of_unmoded
    (hcolor : token.type = some "color" →
      ∀ mode ∈ token.mode, mode ∉ assembly.colorAxis.values)
    (hdimension : token.type = some "dimension" →
      ∀ mode ∈ token.mode, mode ∉ assembly.breakpoints.map Breakpoint.name) :
    token.nameWithout (assembly.boundMode? token) assembly.options.lead = token.name := by
  have hnone : assembly.boundMode? token = none := by
    rw [boundMode?, Option.filter_eq_none_iff]
    intro mode hmode
    simp only [Bool.or_eq_true, Bool.and_eq_true, beq_iff_eq, List.contains_iff_mem, not_or,
      not_and]
    exact ⟨fun htype => hcolor htype mode hmode, fun htype => hdimension htype mode hmode⟩
  rw [hnone, Token.nameWithout]

/-- A token is declared under the name that it takes among those of its mode. -/
theorem nameWithout_boundMode?_of_takes {mode name : String}
    (hmode : (token.type = some "color" ∧ mode ∈ assembly.colorAxis.values) ∨
      (token.type = some "dimension" ∧ mode ∈ assembly.breakpoints.map Breakpoint.name))
    (htakes : Mode.Takes mode assembly.options.lead name token) :
    token.nameWithout (assembly.boundMode? token) assembly.options.lead = name := by
  obtain ⟨hbound, hname⟩ := htakes
  have hsome : assembly.boundMode? token = some mode := by
    rw [boundMode?, hbound, Option.filter_some, if_pos]
    simpa only [Bool.or_eq_true, Bool.and_eq_true, beq_iff_eq, List.contains_iff_mem] using hmode
  rw [hsome, hname]

theorem declares_of_renders (halone : assembly.IsAlone tokens token)
    (hrenders : assembly.options.Renders dictionary token) {name : String}
    (hname : token.nameWithout (assembly.boundMode? token) assembly.options.lead = name) :
    assembly.Declares tokens dictionary [token]
      (assembly.options.declaration dictionary (name, token)) := by
  subst hname
  exact .alone token _ halone (RenderOptions.value_eq_ok.2 ⟨hrenders, rfl⟩)

/-! ## Colors -/

section Colors

variable {palette : Palette} {darkMode : String}
  (hsecond : assembly.colorAxis.second? = some darkMode)
  (hpalette : Palette.ofAxis assembly.colorAxis (colorsOf tokens) assembly.options.lead =
    .ok palette)

include hsecond hpalette

theorem mem_light_iff {entry : String × Token} : entry ∈ palette.light ↔
    entry.2 ∈ colorsOf tokens ∧
      Mode.Takes assembly.colorAxis.default assembly.options.lead entry.1 entry.2 := by
  rw [Palette.eq_of_ofAxis hpalette hsecond]
  exact Mode.mem_entriesOf assembly.colorAxis.default_mem

theorem mem_dark_iff {entry : String × Token} : entry ∈ palette.dark ↔
    entry.2 ∈ colorsOf tokens ∧ Mode.Takes darkMode assembly.options.lead entry.1 entry.2 := by
  rw [Palette.eq_of_ofAxis hpalette hsecond]
  exact Mode.mem_entriesOf (List.mem_of_find?_eq_some hsecond)

omit hpalette in
theorem default_ne_second : assembly.colorAxis.default ≠ darkMode := by
  intro hsame
  simpa [← hsame] using List.find?_some hsecond

/-- Two colors share their declaration if they stand under one name. -/
theorem shares_iff (hstrategy : assembly.strategy = .lightDarkFunction) {light dark : Token}
    (hlight : light ∈ tokens) (hdark : dark ∈ tokens) :
    assembly.Shares light dark ↔
      ∃ name, (name, light) ∈ palette.light ∧ (name, dark) ∈ palette.dark := by
  simp only [mem_light_iff hsecond hpalette, mem_dark_iff hsecond hpalette, colorsOf,
    List.mem_filter, beq_iff_eq]
  constructor
  · intro hshares
    obtain ⟨mode, hmode, hdarkMode⟩ := hshares.dark_mode
    have hsame : mode = darkMode := Option.some.inj (hmode.symm.trans hsecond)
    have hname := hshares.name
    rw [hshares.light_mode, hdarkMode, hsame] at hname
    rw [hsame] at hdarkMode
    exact ⟨_, ⟨⟨hlight, hshares.light_type⟩, hshares.light_mode, rfl⟩,
      ⟨hdark, hshares.dark_type⟩, hdarkMode, hname.symm⟩
  · rintro ⟨name, ⟨⟨-, hlightType⟩, hlightMode, hlightName⟩, ⟨-, hdarkType⟩, hdarkMode, hdarkName⟩
    refine ⟨hstrategy, hlightType, hdarkType, hlightMode, ⟨darkMode, hsecond, hdarkMode⟩, ?_⟩
    rw [hlightMode, hdarkMode, hlightName, hdarkName]

/-- No color is light and dark. -/
theorem not_mem_dark_of_mem_light {light : String × Token} (hlight : light ∈ palette.light)
    {name : String} : (name, light.2) ∉ palette.dark := by
  intro hdark
  have hlightMode := ((mem_light_iff hsecond hpalette).1 hlight).2.1
  have hdarkMode := ((mem_dark_iff hsecond hpalette).1 hdark).2.1
  exact default_ne_second hsecond (Option.some.inj (hlightMode.symm.trans hdarkMode))

/-- The palette has every color once. -/
theorem perm_palette (hpair : assembly.colorAxis.IsPair) :
    (palette.always ++ (palette.light.map Prod.snd ++ palette.dark.map Prod.snd)).Perm
      (colorsOf tokens) := by
  have hne := default_ne_second hsecond
  have hmodes : ∀ mode, mode ∈ [assembly.colorAxis.default, darkMode] ↔
      mode ∈ assembly.colorAxis.values := by
    intro mode
    rw [List.mem_pair]
    constructor
    · rintro (rfl | rfl)
      · exact assembly.colorAxis.default_mem
      · exact List.mem_of_find?_eq_some hsecond
    · intro hmode
      by_cases hdefault : mode = assembly.colorAxis.default
      · exact .inl hdefault
      · exact .inr (Option.some.inj ((hpair mode hmode hdefault).symm.trans hsecond))
  have hperm := @ModeAxis.perm_unmoded_append _ (colorsOf tokens) _ (by simp [hne]) hmodes
  rw [Palette.eq_of_ofAxis hpalette hsecond]
  simpa [Mode.entriesOf, Mode.entry, Function.comp_def] using hperm

variable (hrenders : palette.Renders assembly.options dictionary)

include hrenders

theorem accounts_own : Accounts (assembly.Declares tokens dictionary) palette.always
    (palette.own.map (assembly.options.declaration dictionary)) := by
  apply Accounts.own
  intro token hmem
  have hunmoded : token ∈ assembly.colorAxis.unmoded (colorsOf tokens) := by
    rwa [Palette.eq_of_ofAxis hpalette hsecond] at hmem
  have hmode := ModeAxis.not_mem_values_of_mem_unmoded hunmoded
  have htype : token.type = some "color" := by
    simpa using (List.mem_filter.1 (List.mem_of_mem_filter hunmoded)).2
  apply declares_of_renders (isAlone_of_mode hmode) (hrenders.always token hmem)
  apply nameWithout_boundMode?_of_unmoded
  · exact fun _ => hmode
  · simp [htype]

theorem declares_light {entry : String × Token} (hentry : entry ∈ palette.light)
    (halone : assembly.IsAlone tokens entry.2) :
    assembly.Declares tokens dictionary [entry.2]
      (assembly.options.declaration dictionary entry) := by
  obtain ⟨hmem, htakes⟩ := (mem_light_iff hsecond hpalette).1 hentry
  apply declares_of_renders halone (hrenders.light entry hentry)
  have htype : entry.2.type = some "color" := by simpa using (List.mem_filter.1 hmem).2
  exact nameWithout_boundMode?_of_takes
    (.inl ⟨htype, assembly.colorAxis.default_mem⟩) htakes

theorem declares_dark {entry : String × Token} (hentry : entry ∈ palette.dark)
    (halone : assembly.IsAlone tokens entry.2) :
    assembly.Declares tokens dictionary [entry.2]
      (assembly.options.declaration dictionary entry) := by
  obtain ⟨hmem, htakes⟩ := (mem_dark_iff hsecond hpalette).1 hentry
  apply declares_of_renders halone (hrenders.dark entry hentry)
  have htype : entry.2.type = some "color" := by simpa using (List.mem_filter.1 hmem).2
  exact nameWithout_boundMode?_of_takes (.inl ⟨htype, List.mem_of_find?_eq_some hsecond⟩) htakes

/-- Where light and dark stand in different blocks every color is declared alone. -/
theorem accounts_mediaQueryPart (hpair : assembly.colorAxis.IsPair)
    (hstrategy : assembly.strategy = .mediaQuery) :
    Accounts (assembly.Declares tokens dictionary) (colorsOf tokens)
      ((palette.own ++ palette.light).map (assembly.options.declaration dictionary) ++
        Item.allDeclarations (palette.darkItems assembly.options dictionary)) := by
  have hown := accounts_own hsecond hpalette hrenders
  have hlight := Accounts.named fun entry hentry =>
    declares_light hsecond hpalette hrenders hentry (isAlone_of_mediaQuery hstrategy)
  have hbound := Accounts.named fun entry hentry =>
    declares_dark hsecond hpalette hrenders hentry (isAlone_of_mediaQuery hstrategy)
  rw [Palette.allDeclarations_darkItems, List.map_append, List.append_assoc]
  exact (hown.append (hlight.append hbound)).of_perm (perm_palette hsecond hpalette hpair)

/-- The sources of the declaration of a light color. -/
def lightSources (palette : Palette) (entry : String × Token) : List Token :=
  entry.2 :: (Entries.get? palette.dark entry.1).toList

omit hsecond hpalette hrenders in
/-- Light colors with their dark ones and the dark ones without a light one are all of them. -/
theorem perm_lightSources (hdistinct : palette.Distinct) :
    (palette.light.flatMap (lightSources palette) ++ palette.darkOnly.map Prod.snd).Perm
      (palette.light.map Prod.snd ++ palette.dark.map Prod.snd) := by
  have hfound : palette.light.flatMap
      (fun entry => (Entries.get? palette.dark entry.1).toList) =
        (palette.light.filterMap fun entry =>
          (Entries.get? palette.dark entry.1).map fun token => (entry.1, token)).map Prod.snd := by
    rw [List.map_filterMap, List.filterMap_eq_flatMap_toList]
    simp [Function.comp_def]
  have hpaired := (Entries.filterMap_get?_perm hdistinct.light hdistinct.dark).map Prod.snd
  have hdark := (List.filter_append_perm (fun entry => Entries.contains palette.light entry.1)
    palette.dark).map Prod.snd
  rw [List.map_append] at hdark
  calc palette.light.flatMap (lightSources palette) ++ palette.darkOnly.map Prod.snd
      ~ (palette.light.map Prod.snd ++ palette.light.flatMap
          (fun entry => (Entries.get? palette.dark entry.1).toList)) ++
            palette.darkOnly.map Prod.snd :=
        (List.map_append_flatMap_perm _ _ _).symm.append_right _
    _ = palette.light.map Prod.snd ++ (palette.light.flatMap
          (fun entry => (Entries.get? palette.dark entry.1).toList) ++
            palette.darkOnly.map Prod.snd) := List.append_assoc ..
    _ ~ palette.light.map Prod.snd ++ palette.dark.map Prod.snd := by
        rw [hfound]
        exact ((hpaired.append_right _).trans hdark).append_left _

theorem declares_lightTone (hstrategy : assembly.strategy = .lightDarkFunction)
    {entry : String × Token} (hentry : entry ∈ palette.light) :
    assembly.Declares tokens dictionary (lightSources palette entry)
      (Tone.declaration (entry.1, palette.lightTone assembly.options dictionary entry)) := by
  obtain ⟨hmem, htakes⟩ := (mem_light_iff hsecond hpalette).1 hentry
  have htoken := List.mem_of_mem_filter hmem
  have htype : entry.2.type = some "color" := by simpa using (List.mem_filter.1 hmem).2
  rw [lightSources, Palette.lightTone]
  cases hdark : Entries.get? palette.dark entry.1 with
  | none =>
      apply declares_light hsecond hpalette hrenders hentry
      intro other hother
      rw [shares_iff hsecond hpalette hstrategy htoken hother,
        shares_iff hsecond hpalette hstrategy hother htoken]
      constructor
      · rintro ⟨name, hlight, hpartner⟩
        have hname : name = entry.1 :=
          ((mem_light_iff hsecond hpalette).1 hlight).2.2.symm.trans htakes.2
        rw [hname] at hpartner
        exact Entries.get?_eq_none_iff.1 hdark (List.mem_map.2 ⟨_, hpartner, rfl⟩)
      · rintro ⟨name, -, hpartner⟩
        exact not_mem_dark_of_mem_light hsecond hpalette hentry hpartner
  | some dark =>
      have hpartner := Entries.mem_of_get?_eq_some hdark
      have hmemDark := List.mem_of_mem_filter ((mem_dark_iff hsecond hpalette).1 hpartner).1
      have hshares : assembly.Shares entry.2 dark :=
        (shares_iff hsecond hpalette hstrategy htoken hmemDark).2 ⟨entry.1, hentry, hpartner⟩
      have hname := nameWithout_boundMode?_of_takes
        (.inl ⟨htype, assembly.colorAxis.default_mem⟩) htakes
      have hshared : assembly.Declares tokens dictionary [entry.2, dark] _ := .shared entry.2 dark
        (assembly.options.text dictionary entry.2) (assembly.options.text dictionary dark) hshares
        (RenderOptions.value_eq_ok.2 ⟨hrenders.light entry hentry, rfl⟩)
        (RenderOptions.value_eq_ok.2 ⟨hrenders.dark _ hpartner, rfl⟩)
      rwa [hname] at hshared

/-- Where light and dark stand in one declaration every color is declared alone or with the
one of its name. -/
theorem accounts_lightDarkPart (hpair : assembly.colorAxis.IsPair)
    (hstrategy : assembly.strategy = .lightDarkFunction) :
    Accounts (assembly.Declares tokens dictionary) (colorsOf tokens)
      ((palette.tones assembly.options dictionary).map Tone.declaration) := by
  have hown := accounts_own hsecond hpalette hrenders
  have hlight := Accounts.map fun entry hentry =>
    declares_lightTone hsecond hpalette hrenders hstrategy hentry
  have halone : ∀ entry ∈ palette.darkOnly, assembly.Declares tokens dictionary [entry.2]
      (assembly.options.declaration dictionary entry) := by
    intro entry hentry
    obtain ⟨hdark, hfree⟩ := List.mem_filter.1 hentry
    have hmem := (mem_dark_iff hsecond hpalette).1 hdark
    have htoken := List.mem_of_mem_filter hmem.1
    apply declares_dark hsecond hpalette hrenders hdark
    intro other hother
    rw [shares_iff hsecond hpalette hstrategy htoken hother,
      shares_iff hsecond hpalette hstrategy hother htoken]
    constructor
    · rintro ⟨name, hlight, -⟩
      exact not_mem_dark_of_mem_light hsecond hpalette hlight hdark
    · rintro ⟨name, hlight, hpartner⟩
      have hname : name = entry.1 :=
        ((mem_dark_iff hsecond hpalette).1 hpartner).2.2.symm.trans hmem.2.2
      rw [hname] at hlight
      have hkey : (Entries.get? palette.light entry.1).isSome :=
        (Entries.isSome_get?_iff _ _).2 (List.mem_map.2 ⟨_, hlight, rfl⟩)
      simp [Entries.contains, hkey] at hfree
  rw [Palette.map_declaration_tones, List.append_assoc]
  apply (hown.append (hlight.append (Accounts.named halone))).of_perm
  exact ((perm_lightSources (Palette.distinct_of_ofAxis hpalette)).append_left _).trans
    (perm_palette hsecond hpalette hpair)

end Colors

theorem accounts_colorPart {part : Part}
    (hpart : (colorPart tokens dictionary assembly.options assembly.strategy
      assembly.colorAxis).result = .ok part) (hpair : assembly.colorAxis.IsPair) :
    Accounts (assembly.Declares tokens dictionary) (colorsOf tokens)
      (part.root ++ Item.allDeclarations part.conditional) := by
  obtain ⟨palette, hpalette, hrenders, rfl⟩ := colorPart_eq_ok.1 hpart
  obtain ⟨darkMode, hsecond⟩ := Palette.exists_second_of_ofAxis hpalette
  cases hstrategy : assembly.strategy with
  | lightDarkFunction =>
      rw [Palette.toPart, Item.allDeclarations, List.append_nil]
      exact accounts_lightDarkPart hsecond hpalette hrenders hpair hstrategy
  | mediaQuery => exact accounts_mediaQueryPart hsecond hpalette hrenders hpair hstrategy

/-! ## Dimensions -/

section Dimensions

variable {axis : ModeAxis} (haxis : Breakpoint.axis assembly.breakpoints = .ok axis)
  (hrenders : ∀ token ∈ dimensionsOf tokens, assembly.options.Renders dictionary token)

include haxis hrenders

end Dimensions

end Assembly

end DesignTokens.Stylesheet
