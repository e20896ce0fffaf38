import DesignTokens.Proofs.Stylesheet.Cascade

/-!
# Two ways to write color schemes

Declarations with both values in one and a block of dark values mean the same, as far as
a property has a light value at all: a color that is only defined for the dark scheme is
declared for both schemes by the first way and for the dark one alone by the second.
-/

namespace DesignTokens.Stylesheet

/-- The value of a tone under a color scheme. -/
def Tone.read : Scheme → Tone → String
  | _, .same value => value
  | .light, .pair light _ => light
  | .dark, .pair _ dark => dark

variable {tokens : List Token} {dictionary : Dictionary} {options : RenderOptions}
  {axis : ModeAxis} {palette : Palette} {place : Surroundings}

namespace Palette

/-- The tone of a property is that of its light token, else of its dark one, else of the
last one that holds under both schemes. -/
theorem last?_tones (hdistinct : palette.Distinct) (name : String) :
    Entries.last? (palette.tones options dictionary) name =
      match Entries.get? palette.light name, Entries.get? palette.dark name with
      | some light, none => some (.same (options.text dictionary light))
      | some light, some dark =>
          some (.pair (options.text dictionary light) (options.text dictionary dark))
      | none, some dark => some (.same (options.text dictionary dark))
      | none, none => (Entries.last? palette.own name).map fun token =>
          .same (options.text dictionary token) := by
  have hsame : ∀ entries : List (String × Token),
      Entries.last? (entries.map fun entry =>
        (entry.1, Tone.same (options.text dictionary entry.2))) name =
      (Entries.last? entries name).map fun token => Tone.same (options.text dictionary token) :=
    fun entries => Entries.last?_map Function.injective_id
      (fun entry => Tone.same (options.text dictionary entry.2)) entries name
  have hpaired : Entries.last? (palette.light.map fun entry =>
        (entry.1, palette.lightTone options dictionary entry)) name =
      (Entries.last? palette.light name).map fun token =>
        palette.lightTone options dictionary (name, token) :=
    Entries.last?_map Function.injective_id (palette.lightTone options dictionary) _ name
  have halone : Entries.last? palette.darkOnly name =
      if Entries.contains palette.light name then none else Entries.get? palette.dark name := by
    rw [darkOnly, Entries.last?_filter fun key => !Entries.contains palette.light key,
      Entries.last?_eq_get? hdistinct.dark]
    cases Entries.contains palette.light name <;> rfl
  rw [tones, Entries.last?_append, Entries.last?_append, hsame, hsame, hpaired, halone,
    Entries.last?_eq_get? hdistinct.light, Entries.contains]
  cases hlight : Entries.get? palette.light name with
  | some light =>
      cases hdark : Entries.get? palette.dark name <;> simp [lightTone, hdark]
  | none =>
      cases hdark : Entries.get? palette.dark name <;> simp

/-- Where dark is preferred the dark declarations follow the light ones. -/
theorem cascaded?_applicable (hdistinct : palette.Distinct) (name : String) :
    cascaded? (Part.applicable
        ⟨(palette.own ++ palette.light).map (options.declaration dictionary),
          palette.darkItems options dictionary⟩ place) (custom name) =
      (((if place.scheme = .dark then Entries.get? palette.dark name else none).or
        (Entries.get? palette.light name)).or (Entries.last? palette.own name)).map
          (options.text dictionary) := by
  have hdark : (palette.darkItems options dictionary).flatMap (Item.applicable place) =
      if place.scheme = .dark then palette.dark.map (options.declaration dictionary) else [] := by
    rw [darkItems_eq, applicable_mediaItems Surroundings.meets_prefersDark]
  rw [Part.applicable, hdark, cascaded?_append, cascaded?_map_declaration, Entries.last?_append,
    Entries.last?_eq_get? hdistinct.light]
  split
  · rw [cascaded?_map_declaration, Entries.last?_eq_get? hdistinct.dark]
    simp only [Option.or_assoc, Option.map_or]
  · simp [cascaded?, Entries.last?]

/-- Both ways give a property one value, save that a dark value without a light one does
not hold in the light scheme the second way. -/
theorem read_tones_eq (hdistinct : palette.Distinct) {name : String}
    (hname : place.scheme = .light → name ∈ Entries.keys palette.dark →
      name ∈ Entries.keys palette.light) :
    (Entries.last? (palette.tones options dictionary) name).map (Tone.read place.scheme) =
      cascaded? (Part.applicable
        ⟨(palette.own ++ palette.light).map (options.declaration dictionary),
          palette.darkItems options dictionary⟩ place) (custom name) := by
  rw [last?_tones hdistinct, cascaded?_applicable hdistinct]
  cases hlight : Entries.get? palette.light name with
  | some light =>
      cases hdark : Entries.get? palette.dark name <;> cases place.scheme <;> simp [Tone.read]
  | none =>
      cases hdark : Entries.get? palette.dark name with
      | none =>
          cases hown : Entries.last? palette.own name <;> cases place.scheme <;> simp [Tone.read]
      | some dark =>
          have hmem : name ∈ Entries.keys palette.dark := by
            rw [← Entries.isSome_get?_iff, hdark, Option.isSome_some]
          cases hscheme : place.scheme with
          | light => exact absurd (hname hscheme hmem) (Entries.get?_eq_none_iff.1 hlight)
          | dark => simp [Tone.read]

end Palette

/-- The name is taken by a token of the second mode of the axis and by none of the first. -/
def IsDarkOnly (axis : ModeAxis) (tokens : List Token) (lead : Option String) (name : String) :
    Prop :=
  (∃ darkMode ∈ axis.second?, Mode.IsTaken darkMode lead tokens name) ∧
    ¬ Mode.IsTaken axis.default lead tokens name

instance (axis : ModeAxis) (tokens : List Token) (lead : Option String) (name : String) :
    Decidable (IsDarkOnly axis tokens lead name) :=
  inferInstanceAs (Decidable ((∃ darkMode ∈ axis.second?, _) ∧ ¬ _))

theorem isDarkOnly_iff {lead : Option String}
    (hpalette : Palette.ofAxis axis tokens lead = .ok palette) {name : String} :
    IsDarkOnly axis tokens lead name ↔
      name ∈ Entries.keys palette.dark ∧ name ∉ Entries.keys palette.light := by
  obtain ⟨darkMode, hsecond⟩ := Palette.exists_second_of_ofAxis hpalette
  have hmode : darkMode ∈ axis.values := List.mem_of_find?_eq_some hsecond
  rw [Palette.eq_of_ofAxis hpalette hsecond, Mode.mem_keys_entriesOf hmode,
    Mode.mem_keys_entriesOf axis.default_mem]
  simp [IsDarkOnly, hsecond]

/-- Both ways of writing colors succeed on the same tokens. What they write gives every
property the same value in the dark scheme, and in the light one as well if the property is
not one of dark tokens alone. -/
theorem strategies_agree (tokens : List Token) (dictionary : Dictionary)
    (options : RenderOptions) (axis : ModeAxis) :
    ((∃ part, (lightDarkPart tokens dictionary options axis).result = .ok part) ↔
      ∃ part, (mediaQueryPart tokens dictionary options axis).result = .ok part) ∧
    ∀ together apart, (lightDarkPart tokens dictionary options axis).result = .ok together →
      (mediaQueryPart tokens dictionary options axis).result = .ok apart →
      ∃ palette, Palette.ofAxis axis tokens options.lead = .ok palette ∧
        together = ⟨(palette.tones options dictionary).map Tone.declaration, []⟩ ∧
        ∀ (place : Surroundings) (name : String),
          (place.scheme = .light → ¬ IsDarkOnly axis tokens options.lead name) →
          (Entries.last? (palette.tones options dictionary) name).map (Tone.read place.scheme) =
            cascaded? (apart.applicable place) (custom name) := by
  constructor
  · constructor
    · rintro ⟨part, hpart⟩
      obtain ⟨palette, hpalette, hrenders, -⟩ := lightDarkPart_eq_ok.1 hpart
      exact ⟨_, mediaQueryPart_eq_ok.2 ⟨palette, hpalette, hrenders, rfl⟩⟩
    · rintro ⟨part, hpart⟩
      obtain ⟨palette, hpalette, hrenders, -⟩ := mediaQueryPart_eq_ok.1 hpart
      exact ⟨_, lightDarkPart_eq_ok.2 ⟨palette, hpalette, hrenders, rfl⟩⟩
  · intro together apart htogether hapart
    obtain ⟨palette, hpalette, -, htones⟩ := lightDarkPart_eq_ok.1 htogether
    obtain ⟨other, hother, -, rfl⟩ := mediaQueryPart_eq_ok.1 hapart
    have hsame : palette = other := Except.ok.inj (hpalette.symm.trans hother)
    subst hsame
    refine ⟨palette, hpalette, htones, ?_⟩
    intro place name hname
    apply Palette.read_tones_eq (Palette.distinct_of_ofAxis hpalette)
    intro hlight hdark
    by_contra hnone
    exact hname hlight ((isDarkOnly_iff hpalette).2 ⟨hdark, hnone⟩)

/-! ### A surface with a light and a dark color, and a dark glow -/

def surfaces : Dictionary where
  tokens :=
    [⟨["color", "surface"], "color-surface", some "color", .text "#888", .text "#888", none, none,
        [], none⟩,
      ⟨["color", "light", "surface"], "color-light-surface", some "color", .text "#fff",
        .text "#fff", some "light", none, [], none⟩,
      ⟨["color", "dark", "surface"], "color-dark-surface", some "color", .text "#000",
        .text "#000", some "dark", none, [], none⟩,
      ⟨["color", "dark", "glow"], "color-dark-glow", some "color", .text "#ff0", .text "#ff0",
        some "dark", none, [], none⟩]
  nodup_paths := by decide

theorem together_surfaces : (lightDarkPart surfaces.tokens surfaces {} .color).result =
    .ok ⟨[⟨"--color-surface", "#888"⟩, ⟨"--color-surface", "light-dark(#fff, #000)"⟩,
      ⟨"--color-glow", "#ff0"⟩], []⟩ := rfl

theorem apart_surfaces : (mediaQueryPart surfaces.tokens surfaces {} .color).result =
    .ok ⟨[⟨"--color-surface", "#888"⟩, ⟨"--color-surface", "#fff"⟩],
      [.media prefersDark ":root" [⟨"--color-surface", "#000"⟩, ⟨"--color-glow", "#ff0"⟩]]⟩ := rfl

theorem strategies_agree_surfaces :
    ¬ IsDarkOnly .color surfaces.tokens none "color-surface" ∧
    IsDarkOnly .color surfaces.tokens none "color-glow" ∧
    ∃ palette, Palette.ofAxis .color surfaces.tokens none = .ok palette ∧
      (Entries.last? (palette.tones {} surfaces) "color-surface").map (Tone.read .light) =
        cascaded? (Part.applicable ⟨[⟨"--color-surface", "#888"⟩, ⟨"--color-surface", "#fff"⟩],
          [.media prefersDark ":root" [⟨"--color-surface", "#000"⟩, ⟨"--color-glow", "#ff0"⟩]]⟩
          ⟨.light, 0⟩) (custom "color-surface") := by
  have hsurface : ¬ IsDarkOnly .color surfaces.tokens none "color-surface" := by decide
  obtain ⟨palette, hpalette, -, hsame⟩ :=
    (strategies_agree surfaces.tokens surfaces {} .color).2 _ _ together_surfaces apart_surfaces
  exact ⟨hsurface, by decide, palette, hpalette,
    hsame ⟨.light, 0⟩ "color-surface" fun _ => hsurface⟩

end DesignTokens.Stylesheet
