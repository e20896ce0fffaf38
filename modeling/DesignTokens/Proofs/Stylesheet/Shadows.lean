import DesignTokens.Proofs.Resolution.Members
import DesignTokens.Proofs.Stylesheet.Embedded
import DesignTokens.Proofs.Stylesheet.Literal

/-!
# Shadows with and without references

Where a reference stands for a whole part of a shadow, or for one of several shadows, the
text with calls and the literal text are one form, filled in with the calls or with the
literal texts of the tokens that they name. The text with calls can fail to be built where
the literal one is there: it is put together from the texts of all members, also of those
that a shadow does not write.
-/

namespace DesignTokens.Stylesheet

/-! ## One form for both texts -/

/-- The text of a value in whose place an alias stands for its token, as `write` has it. -/
def placeWith (dictionary : Dictionary) (write : Token → Except Error String)
    (original resolved : Value) : Except Error String :=
  match original.alias? with
  | some reference => dictionary.lookup reference none >>= write
  | none => (literalText none resolved).result

/-- The text of one shadow, with `write` for aliases. -/
def layerWith (dictionary : Dictionary) (write : Token → Except Error String) :
    Value → Value → Except Error String
  | .object authored, .object entries => do
    let parts ← shadowParts.filterMapM fun part =>
      match Entries.get? entries part with
      | none => pure none
      | some value =>
        some <$> placeWith dictionary write ((Entries.get? authored part).getD value) value
    return shadowOf (isInset entries) parts
  | original, resolved => placeWith dictionary write original resolved

/-- The shadows of a value, each as authored and as resolved. -/
def layersOf : Value → Value → List (Value × Value)
  | .list originals, .list layers => originals.zip layers
  | original, resolved => [(original, resolved)]

/-- The text of one or more shadows, with `write` for aliases. -/
def shadowWith (dictionary : Dictionary) (write : Token → Except Error String)
    (original resolved : Value) : Except Error String :=
  ", ".intercalate <$> (layersOf original resolved).mapM fun layer =>
    layerWith dictionary write layer.1 layer.2

/-- A shadow that cannot be taken for a color. -/
def IsLayer (v : Value) : Prop :=
  v.isShadow = true ∧ v.hasMember "colorSpace" = false

/-- A value without references, or an alias of a token whose value is no list. -/
def IsPlace (dictionary : Dictionary) (original : Value) : Prop :=
  original.references = [] ∨ ∃ reference, original.alias? = some reference ∧
    ∀ target, dictionary.get? (Reference.path reference) = some target →
      ∀ items, target.value ≠ .list items

/-- An object in which aliases stand for members, or an alias of a whole shadow. -/
def IsAuthoredLayer (dictionary : Dictionary) : Value → Prop
  | .object authored => ∀ entry ∈ authored, IsPlace dictionary entry.2
  | original => IsPlace dictionary original

/-- What a layer has beside the parts of a shadow has a literal text, where it is no alias. -/
def RestHasText (layer : Value × Value) : Prop :=
  ∀ key authored value, layer.1.member? key = some authored → layer.2.member? key = some value →
    key ∉ shadowParts → authored.references = [] →
      ∃ text, (literalText none value).result = .ok text

/-! ## Literal texts -/

theorem literalText_of_isLayer {entries : Object} (hlayer : IsLayer (.object entries)) :
    literalText none (.object entries) = do
      let parts ← shadowParts.filterMapM fun part => literalMember part entries
      return shadowOf (isInset entries) parts := by
  obtain ⟨hshadow, hspace⟩ := hlayer
  have hoffset : (Value.object entries).hasMember "offsetX" = true := by
    rw [Value.isShadow, Bool.and_eq_true, Bool.and_eq_true] at hshadow
    exact hshadow.1.1
  rw [literalText, Value.isColor, hspace, Bool.false_and, if_neg Bool.false_ne_true,
    Value.isDimension_eq_false_of_hasMember hoffset (by decide), if_neg Bool.false_ne_true,
    if_pos hshadow]

variable {dictionary : Dictionary} {write : Token → Except Error String}
  {authored entries : Object} {original resolved : Value}

theorem layerWith_eq_literalText (hlayer : IsLayer (.object entries))
    (hsame : ∀ part value, Entries.get? entries part = some value →
      placeWith dictionary write ((Entries.get? authored part).getD value) value =
        (literalText none value).result) :
    layerWith dictionary write (.object authored) (.object entries) =
      (literalText none (.object entries)).result := by
  rw [literalText_of_isLayer hlayer, layerWith, Traced.result_bind, Traced.result_filterMapM]
  congr 2
  funext part
  rw [literalMember_eq]
  cases hvalue : Entries.get? entries part with
  | none => rfl
  | some value =>
      dsimp only
      rw [hsame part value hvalue, Traced.result_map]

/-! ## Places -/

theorem placeWith_of_references (hplain : original.references = []) :
    placeWith dictionary write original resolved = (literalText none resolved).result := by
  rw [placeWith, Value.alias?_eq_none_of_references hplain]

theorem placeWith_of_alias? {reference : String} {target : Token}
    (halias : original.alias? = some reference)
    (htarget : dictionary.get? (Reference.path reference) = some target) :
    placeWith dictionary write original resolved = write target := by
  rw [placeWith, halias]
  simp only [Dictionary.lookup, htarget]
  rfl

/-- The literal text of a token. -/
def literalOf (target : Token) : Except Error String :=
  (literalText target.type target.value).result

theorem placeWith_literalOf (hplace : IsPlace dictionary original)
    (hreplaced : original.Replaced (Resolution.valueAt? dictionary.tokens) resolved) :
    placeWith dictionary literalOf original resolved = (literalText none resolved).result := by
  rcases hplace with hplain | ⟨reference, halias, hlist⟩
  · exact placeWith_of_references hplain
  · obtain ⟨target, htarget, rfl⟩ := Dictionary.exists_target_of_alias? halias hreplaced
    rw [placeWith_of_alias? halias htarget, literalOf,
      literalText_of_not_list (hlist target htarget)]

/-! ## Literal layers -/

theorem exists_place {key : String} {value : Value}
    (hplaces : ∀ entry ∈ authored, IsPlace dictionary entry.2)
    (hreplaced : Value.EntriesReplaced (Resolution.valueAt? dictionary.tokens) authored entries)
    (hvalue : Entries.get? entries key = some value) :
    ∃ original, Entries.get? authored key = some original ∧ IsPlace dictionary original ∧
      original.Replaced (Resolution.valueAt? dictionary.tokens) value := by
  have hmember := Value.get?_of_entriesReplaced hreplaced key
  rw [hvalue] at hmember
  obtain ⟨original, horiginal, hmember⟩ := Paired.exists_of_rel_some_right hmember
  exact ⟨original, horiginal, hplaces _ (Entries.mem_of_get?_eq_some horiginal), hmember⟩

theorem exists_object_of_isLayer (hlayer : IsLayer resolved) :
    ∃ entries, resolved = .object entries := by
  cases resolved with
  | object entries => exact ⟨entries, rfl⟩
  | _ => cases hlayer.1

/-- With the literal texts of the tokens that it names a layer has its literal text. -/
theorem layerWith_literalOf (hlayer : IsLayer resolved)
    (hauthored : IsAuthoredLayer dictionary original)
    (hreplaced : original.Replaced (Resolution.valueAt? dictionary.tokens) resolved) :
    layerWith dictionary literalOf original resolved = (literalText none resolved).result := by
  obtain ⟨entries, rfl⟩ := exists_object_of_isLayer hlayer
  cases original with
  | object authored =>
      obtain ⟨_, ⟨⟩, hentries⟩ := hreplaced
      apply layerWith_eq_literalText hlayer
      intro part value hvalue
      obtain ⟨original, horiginal, hplace, hmember⟩ := exists_place hauthored hentries hvalue
      rw [horiginal]
      exact placeWith_literalOf hplace hmember
  | _ => exact placeWith_literalOf hauthored hreplaced

/-! ## Layers with calls -/

/-- The call of the property of a token. -/
def callOf (options : RenderOptions) (target : Token) : Except Error String :=
  .ok (options.call target.name)

namespace RenderOptions

variable {options : RenderOptions} {token : Token}

theorem keptEntries_eq_mapM (entries : Object) :
    options.keptEntries dictionary token authored entries = entries.mapM fun entry =>
      (entry.1, ·) <$> options.kept dictionary token
        ((Entries.get? authored entry.1).getD entry.2) entry.2 := by
  induction entries with
  | nil => rfl
  | cons entry rest ih =>
      rw [keptEntries, ih, List.mapM_cons]
      simp

theorem kept_eq_literalText (hplain : original.references = []) :
    options.kept dictionary token original resolved = literalText token.type resolved := by
  have hnone : original.usesReferences = false := by simp [Value.usesReferences, hplain]
  unfold kept
  rw [hnone, if_neg Bool.false_ne_true]

theorem kept_of_references (htype : token.type ≠ some "fontFamily")
    (hplain : original.references = []) :
    options.kept dictionary token original resolved = literalText none resolved := by
  rw [kept_eq_literalText hplain, literalText_of_type_ne htype]

theorem kept_of_alias? {reference : String} {target : Token}
    (halias : original.alias? = some reference)
    (htarget : dictionary.get? (Reference.path reference) = some target) :
    (options.kept dictionary token original resolved).result =
      .ok (options.call target.name) := by
  have huses := Value.usesReferences_of_alias? halias
  unfold kept
  rw [if_pos huses]
  cases original with
  | text s =>
      rw [Value.alias?] at halias
      dsimp only
      rw [keptText, halias]
      dsimp only
      rw [RenderOptions.reference, Dictionary.lookup, htarget]
      rfl
  | _ => cases halias

/-- At a place the call stands for an alias and the literal text for any other value. -/
theorem kept_of_isPlace (htype : token.type ≠ some "fontFamily")
    (hplace : IsPlace dictionary original)
    (hreplaced : original.Replaced (Resolution.valueAt? dictionary.tokens) resolved) :
    (options.kept dictionary token original resolved).result =
      placeWith dictionary (callOf options) original resolved := by
  rcases hplace with hplain | ⟨reference, halias, -⟩
  · rw [kept_of_references htype hplain, placeWith_of_references hplain]
  · obtain ⟨target, htarget, -⟩ := Dictionary.exists_target_of_alias? halias hreplaced
    rw [kept_of_alias? halias htarget, placeWith_of_alias? halias htarget, callOf]

/-- The texts of the members of a layer, found at their keys. -/
theorem rel_get?_of_keptEntries {texts : List (String × String)}
    (htexts : (options.keptEntries dictionary token authored entries).result = .ok texts)
    (key : String) :
    Option.Rel (fun value text => (options.kept dictionary token
        ((Entries.get? authored key).getD value) value).result = .ok text)
      (Entries.get? entries key) (Entries.get? texts key) := by
  rw [keptEntries_eq_mapM, Traced.mapM_eq_ok] at htexts
  apply Entries.rel_get?_of_forall₂ (R := fun key value text => (options.kept dictionary token
    ((Entries.get? authored key).getD value) value).result = .ok text)
  apply htexts.imp
  intro entry other hother
  obtain ⟨text, htext, rfl⟩ := Traced.map_eq_ok.1 hother
  exact ⟨rfl, htext⟩

/-- An object with a reference inside is put together from the texts of all its members. -/
theorem kept_of_usesReferences (huses : (Value.object authored).usesReferences = true)
    {text : String} :
    (options.kept dictionary token (.object authored) (.object entries)).result = .ok text ↔
      ∃ texts, (options.keptEntries dictionary token authored entries).result = .ok texts ∧
        text = memberTexts entries texts := by
  unfold kept
  rw [if_pos huses]
  dsimp only
  rw [Traced.bind_eq_ok]
  apply exists_congr
  intro texts
  rw [Traced.result_pure, Except.ok.injEq, eq_comm (a := text)]

theorem kept_object (huses : (Value.object authored).usesReferences = true)
    (hlayer : IsLayer (.object entries)) {text : String} :
    (options.kept dictionary token (.object authored) (.object entries)).result = .ok text ↔
      ∃ texts, (options.keptEntries dictionary token authored entries).result = .ok texts ∧
        text = shadowOf (isInset entries)
          (shadowParts.filterMap fun part => Entries.get? texts part) := by
  simp only [kept_of_usesReferences huses, memberTexts, if_pos hlayer.1]

theorem layerWith_of_keptEntries (htype : token.type ≠ some "fontFamily")
    (hplaces : ∀ entry ∈ authored, IsPlace dictionary entry.2)
    (hreplaced : Value.EntriesReplaced (Resolution.valueAt? dictionary.tokens) authored entries)
    {texts : List (String × String)}
    (htexts : (options.keptEntries dictionary token authored entries).result = .ok texts) :
    layerWith dictionary (callOf options) (.object authored) (.object entries) =
      .ok (shadowOf (isInset entries)
        (shadowParts.filterMap fun part => Entries.get? texts part)) := by
  rw [layerWith, Failing.filterMapM_eq_ok_of_forall (g := fun part => Entries.get? texts part)]
  · rfl
  · intro part _
    have hrel := rel_get?_of_keptEntries htexts part
    cases hvalue : Entries.get? entries part with
    | none =>
        rw [hvalue] at hrel
        rw [Paired.eq_none_of_rel_none hrel]
        rfl
    | some value =>
        rw [hvalue] at hrel
        obtain ⟨text, htext, hkept⟩ := Paired.exists_of_rel_some hrel
        obtain ⟨original, horiginal, hplace, hmember⟩ := exists_place hplaces hreplaced hvalue
        rw [horiginal, Option.getD_some, kept_of_isPlace htype hplace hmember] at hkept
        rw [htext, horiginal]
        dsimp only
        rw [Option.getD_some, hkept]
        rfl

theorem placeWith_of_layerWith {write : Token → Except Error String} {text : String}
    (htext : layerWith dictionary write (.object authored) (.object entries) = .ok text)
    {part : String} (hpart : part ∈ shadowParts) {value : Value}
    (hvalue : Entries.get? entries part = some value) :
    ∃ written, placeWith dictionary write ((Entries.get? authored part).getD value) value =
      .ok written := by
  obtain ⟨parts, hparts, -⟩ := Failing.bind_eq_ok.1 htext
  obtain ⟨found, hfound⟩ := Failing.exists_of_filterMapM_eq_ok hparts part hpart
  rw [hvalue] at hfound
  obtain ⟨written, hwritten, -⟩ := Failing.map_eq_ok.1 hfound
  exact ⟨written, hwritten⟩

/-- The members of a layer have texts if its parts and all else in it have one. -/
theorem exists_keptEntries (htype : token.type ≠ some "fontFamily")
    (hunique : (Entries.keys entries).Nodup)
    (hplaces : ∀ entry ∈ authored, IsPlace dictionary entry.2)
    (hreplaced : Value.EntriesReplaced (Resolution.valueAt? dictionary.tokens) authored entries)
    {text : String}
    (htext : layerWith dictionary (callOf options) (.object authored) (.object entries) = .ok text)
    (hrest : RestHasText (.object authored, .object entries)) :
    ∃ texts, (options.keptEntries dictionary token authored entries).result = .ok texts := by
  simp only [keptEntries_eq_mapM, Traced.mapM_eq_ok, Traced.map_eq_ok]
  apply Paired.exists_of_forall_exists
  intro entry hentry
  have hvalue := Entries.get?_eq_some_of_mem hunique hentry
  obtain ⟨original, horiginal, hplace, hmember⟩ := exists_place hplaces hreplaced hvalue
  rw [horiginal, Option.getD_some, kept_of_isPlace htype hplace hmember]
  suffices hwritten : ∃ written,
      placeWith dictionary (callOf options) original entry.2 = .ok written by
    obtain ⟨written, hwritten⟩ := hwritten
    exact ⟨_, written, hwritten, rfl⟩
  -- What a shadow writes has a text because the whole shadow has one.
  by_cases hpart : entry.1 ∈ shadowParts
  · have hwritten := placeWith_of_layerWith htext hpart hvalue
    rwa [horiginal] at hwritten
  · rcases hplace with hplain | ⟨reference, halias, -⟩
    · rw [placeWith_of_references hplain]
      exact hrest entry.1 original entry.2 horiginal hvalue hpart hplain
    · obtain ⟨target, htarget, -⟩ := Dictionary.exists_target_of_alias? halias hmember
      exact ⟨_, placeWith_of_alias? halias htarget⟩

theorem kept_layer_of_usesReferences (htype : token.type ≠ some "fontFamily")
    (huses : (Value.object authored).usesReferences = true) (hlayer : IsLayer (.object entries))
    (hunique : (Entries.keys entries).Nodup)
    (hplaces : ∀ entry ∈ authored, IsPlace dictionary entry.2)
    (hreplaced : Value.EntriesReplaced (Resolution.valueAt? dictionary.tokens) authored entries)
    {text : String} :
    (options.kept dictionary token (.object authored) (.object entries)).result = .ok text ↔
      layerWith dictionary (callOf options) (.object authored) (.object entries) = .ok text ∧
        RestHasText (.object authored, .object entries) := by
  rw [kept_object huses hlayer]
  constructor
  · rintro ⟨texts, htexts, rfl⟩
    refine ⟨layerWith_of_keptEntries htype hplaces hreplaced htexts, ?_⟩
    intro key original value horiginal hvalue _ hplain
    have hrel := rel_get?_of_keptEntries htexts key
    have hentry : Entries.get? entries key = some value := hvalue
    have hauthored : Entries.get? authored key = some original := horiginal
    rw [hentry, hauthored] at hrel
    obtain ⟨text, -, htext⟩ := Paired.exists_of_rel_some hrel
    rw [Option.getD_some, kept_of_references htype hplain] at htext
    exact ⟨text, htext⟩
  · rintro ⟨htext, hrest⟩
    obtain ⟨texts, htexts⟩ := exists_keptEntries htype hunique hplaces hreplaced htext hrest
    rw [layerWith_of_keptEntries htype hplaces hreplaced htexts] at htext
    exact ⟨texts, htexts, (Except.ok.inj htext).symm⟩

/-- A layer is written with its calls if what else it has, beside the parts of a shadow, has
a text as well. -/
theorem kept_layer (htype : token.type ≠ some "fontFamily")
    (hauthored : IsAuthoredLayer dictionary original) (hlayer : IsLayer resolved)
    (hunique : resolved.UniqueKeys)
    (hreplaced : original.Replaced (Resolution.valueAt? dictionary.tokens) resolved)
    {text : String} :
    (options.kept dictionary token original resolved).result = .ok text ↔
      layerWith dictionary (callOf options) original resolved = .ok text ∧
        (original.usesReferences = true → RestHasText (original, resolved)) := by
  cases original with
  | object authored =>
      obtain ⟨entries, rfl, hentries⟩ := hreplaced
      cases huses : (Value.object authored).usesReferences with
      | true =>
          rw [kept_layer_of_usesReferences htype huses hlayer hunique.nodup hauthored hentries]
          simp
      | false =>
          -- Without references the layer is written as a literal, its unwritten members left out.
          have hplain := Value.usesReferences_eq_false_iff.1 huses
          rw [kept_of_references htype hplain, layerWith_eq_literalText hlayer]
          · simp
          · intro part value hvalue
            obtain ⟨original, horiginal, -, -⟩ := exists_place hauthored hentries hvalue
            rw [horiginal]
            exact placeWith_of_references (Value.references_eq_nil_of_get? hplain horiginal)
  | _ =>
      rw [kept_of_isPlace htype hauthored hreplaced, layerWith, iff_self_and]
      · rintro - - key authored value ⟨⟩
      · rintro authored entries ⟨⟩

end RenderOptions

/-! ## One or more shadows -/

/-- What is asked of a token for its text with calls to have the form of its literal text:
its value is a shadow or a list of shadows, and its references are aliases that stand for
members of a shadow or for a whole one of the list. -/
structure IsPlainShadow (dictionary : Dictionary) (token : Token) : Prop where
  type : token.type = some "shadow"
  resolved : IsLayer token.value ∨
    ∃ layers, token.value = .list layers ∧ ∀ layer ∈ layers, IsLayer layer
  authored :
    (∃ authored, token.original = .object authored ∧
      ∀ entry ∈ authored, IsPlace dictionary entry.2) ∨
    ∃ originals, token.original = .list originals ∧
      ∀ original ∈ originals, IsAuthoredLayer dictionary original

/-- What a part of a value has to be for its two texts to have one form. -/
structure IsLayerOf (dictionary : Dictionary) (layer : Value × Value) : Prop where
  resolved : IsLayer layer.2
  authored : IsAuthoredLayer dictionary layer.1
  uniqueKeys : layer.2.UniqueKeys
  replaced : layer.1.Replaced (Resolution.valueAt? dictionary.tokens) layer.2

variable {options : RenderOptions} {token : Token}

theorem literalText_list {layers : List Value} (hlayers : ∀ layer ∈ layers, IsLayer layer) :
    (literalText none (.list layers)).result =
      ", ".intercalate <$> layers.mapM fun layer => (literalText none layer).result := by
  cases layers with
  | nil => rfl
  | cons first rest =>
      obtain ⟨entries, hfirst⟩ := exists_object_of_isLayer (hlayers first List.mem_cons_self)
      have htexts : ((first :: rest).all Value.isText) = false := by
        rw [hfirst]
        rfl
      rw [literalText, htexts, if_neg (by simp), literalItems_eq_mapM, Traced.result_bind,
        Traced.result_mapM]
      rfl

theorem shapes_of_isPlainShadow (hloaded : Loading.IsLoaded dictionary)
    (htoken : token ∈ dictionary.tokens) (hshadow : IsPlainShadow dictionary token) :
    (∃ authored entries, token.original = .object authored ∧ token.value = .object entries ∧
      IsLayerOf dictionary (.object authored, .object entries)) ∨
    ∃ originals layers, token.original = .list originals ∧ token.value = .list layers ∧
      originals.length = layers.length ∧
      ∀ layer ∈ originals.zip layers, IsLayerOf dictionary layer := by
  have hunique := hloaded.uniqueKeys_value htoken
  have hreplaced := (hloaded.replaced htoken).2
  rcases hshadow.authored with ⟨authored, horiginal, hplaces⟩ | ⟨originals, horiginal, hplaces⟩
  · left
    rw [horiginal] at hreplaced
    obtain ⟨entries, hvalue, hentries⟩ := hreplaced
    rcases hshadow.resolved with hlayer | ⟨layers, hlist, -⟩
    · rw [hvalue] at hlayer hunique
      exact ⟨authored, entries, horiginal, hvalue, hlayer, hplaces, hunique,
        entries, rfl, hentries⟩
    · rw [hvalue] at hlist
      cases hlist
  · right
    rw [horiginal] at hreplaced
    obtain ⟨layers, hvalue, hitems⟩ := hreplaced
    rw [Value.itemsReplaced_iff, List.forall₂_iff_zip] at hitems
    refine ⟨originals, layers, horiginal, hvalue, hitems.1, ?_⟩
    rintro ⟨original, resolved⟩ hmem
    obtain ⟨hleft, hright⟩ := List.of_mem_zip hmem
    rw [hvalue, Value.uniqueKeys_list_iff] at hunique
    rcases hshadow.resolved with hlayer | ⟨_, hlist, hlayers⟩
    · rw [hvalue] at hlayer
      cases hlayer.1
    · rw [hvalue] at hlist
      cases hlist
      exact ⟨hlayers resolved hright, hplaces original hleft, hunique resolved hright,
        hitems.2 hmem⟩

theorem isLayerOf_of_isPlainShadow (hloaded : Loading.IsLoaded dictionary)
    (htoken : token ∈ dictionary.tokens) (hshadow : IsPlainShadow dictionary token) :
    ∀ layer ∈ layersOf token.original token.value, IsLayerOf dictionary layer := by
  obtain ⟨authored, entries, horiginal, hvalue, hlayer⟩ |
    ⟨originals, layers, horiginal, hvalue, -, hlayers⟩ :=
    shapes_of_isPlainShadow hloaded htoken hshadow
  · rw [horiginal, hvalue, layersOf]
    · exact List.forall_mem_singleton.2 hlayer
    · rintro originals layers ⟨⟩
  · rw [horiginal, hvalue]
    exact hlayers

theorem literalText_eq_layers (hloaded : Loading.IsLoaded dictionary)
    (htoken : token ∈ dictionary.tokens) (hshadow : IsPlainShadow dictionary token) :
    (literalText none token.value).result =
      ", ".intercalate <$> (layersOf token.original token.value).mapM fun layer =>
        (literalText none layer.2).result := by
  obtain ⟨authored, entries, horiginal, hvalue, hlayer⟩ |
    ⟨originals, layers, horiginal, hvalue, hlength, hlayers⟩ :=
    shapes_of_isPlainShadow hloaded htoken hshadow
  · rw [horiginal, hvalue, layersOf]
    · simp
    · rintro originals layers ⟨⟩
  · have hzip := List.map_snd_zip hlength.ge
    have hall : ∀ layer ∈ layers, IsLayer layer := by
      rw [← hzip, List.forall_mem_map]
      exact fun layer hmem => (hlayers layer hmem).resolved
    rw [horiginal, hvalue, literalText_list hall, layersOf]
    conv_lhs => rw [← hzip, List.mapM_map]
    rfl

namespace RenderOptions

theorem keptItems_eq_mapM (originals items : List Value) :
    options.keptItems dictionary token originals items =
      (originals.zip items).mapM fun pair => options.kept dictionary token pair.1 pair.2 := by
  induction items generalizing originals with
  | nil => cases originals <;> rfl
  | cons item rest ih =>
      cases originals with
      | nil => rfl
      | cons original others =>
          rw [keptItems, ih, List.zip_cons_cons, List.mapM_cons]

theorem kept_list (htype : token.type ≠ some "fontFamily") {originals layers : List Value}
    (hlength : originals.length = layers.length) :
    (options.kept dictionary token (.list originals) (.list layers)).result =
      if (Value.list originals).usesReferences then
        ", ".intercalate <$> (originals.zip layers).mapM fun layer =>
          (options.kept dictionary token layer.1 layer.2).result
      else
        (literalText none (.list layers)).result := by
  conv_lhs => unfold kept
  split
  · dsimp only
    rw [if_pos hlength, Traced.result_bind, keptItems_eq_mapM, Traced.result_mapM]
    simp only [itemTexts, if_neg htype]
    rfl
  · rw [literalText_of_type_ne htype]

/-- The text of several shadows with calls is put together from the texts of each. -/
theorem kept_eq_layers (hloaded : Loading.IsLoaded dictionary)
    (htoken : token ∈ dictionary.tokens) (hshadow : IsPlainShadow dictionary token) :
    (options.kept dictionary token token.original token.value).result =
      ", ".intercalate <$> (layersOf token.original token.value).mapM fun layer =>
        (options.kept dictionary token layer.1 layer.2).result := by
  have htype : token.type ≠ some "fontFamily" := by simp [hshadow.type]
  have hliteral := literalText_eq_layers hloaded htoken hshadow
  obtain ⟨authored, entries, horiginal, hvalue, hlayer⟩ |
    ⟨originals, layers, horiginal, hvalue, hlength, hlayers⟩ :=
    shapes_of_isPlainShadow hloaded htoken hshadow
  · rw [horiginal, hvalue, layersOf]
    · simp
    · rintro originals layers ⟨⟩
  · rw [horiginal, hvalue] at hliteral ⊢
    rw [kept_list htype hlength]
    split
    · rfl
    · next huses =>
        rw [Bool.not_eq_true, Value.usesReferences_eq_false_iff, Value.references,
          Value.itemReferences_eq_flatMap, List.flatMap_eq_nil_iff] at huses
        rw [hliteral]
        congr 1
        apply Failing.mapM_congr_of_mem
        intro layer hmem
        rw [kept_of_references htype (huses _ (List.of_mem_zip hmem).1)]

theorem kept_shadow (hloaded : Loading.IsLoaded dictionary)
    (htoken : token ∈ dictionary.tokens) (hshadow : IsPlainShadow dictionary token)
    {text : String} :
    (options.kept dictionary token token.original token.value).result = .ok text ↔
      shadowWith dictionary (callOf options) token.original token.value = .ok text ∧
        ∀ layer ∈ layersOf token.original token.value,
          layer.1.usesReferences = true → RestHasText layer := by
  have htype : token.type ≠ some "fontFamily" := by simp [hshadow.type]
  have hlayers := isLayerOf_of_isPlainShadow hloaded htoken hshadow
  have hpaired : ∀ texts, List.Forall₂
      (fun layer text => (options.kept dictionary token layer.1 layer.2).result = .ok text)
        (layersOf token.original token.value) texts ↔
      (∀ layer ∈ layersOf token.original token.value,
        layer.1.usesReferences = true → RestHasText layer) ∧
      List.Forall₂ (fun layer text =>
        layerWith dictionary (callOf options) layer.1 layer.2 = .ok text)
          (layersOf token.original token.value) texts := by
    intro texts
    rw [← List.forall₂_and_left]
    apply Paired.forall₂_congr_of_mem
    intro layer hmem text
    have hlayer := hlayers layer hmem
    rw [kept_layer htype hlayer.authored hlayer.resolved hlayer.uniqueKeys hlayer.replaced,
      and_comm]
  rw [kept_eq_layers hloaded htoken hshadow, shadowWith, Failing.map_eq_ok, Failing.map_eq_ok]
  simp only [Failing.mapM_eq_ok, hpaired]
  constructor
  · rintro ⟨texts, ⟨hrest, htexts⟩, rfl⟩
    exact ⟨⟨texts, htexts, rfl⟩, hrest⟩
  · rintro ⟨⟨texts, htexts, rfl⟩, hrest⟩
    exact ⟨texts, ⟨hrest, htexts⟩, rfl⟩

end RenderOptions

/-- With the literal texts of the tokens that it names a shadow has its literal text. -/
theorem shadowWith_literalOf (hloaded : Loading.IsLoaded dictionary)
    (htoken : token ∈ dictionary.tokens) (hshadow : IsPlainShadow dictionary token) :
    shadowWith dictionary literalOf token.original token.value =
      (literalText none token.value).result := by
  rw [shadowWith, literalText_eq_layers hloaded htoken hshadow]
  congr 1
  apply Failing.mapM_congr_of_mem
  intro layer hmem
  have hlayer := isLayerOf_of_isPlainShadow hloaded htoken hshadow layer hmem
  exact layerWith_literalOf hlayer.resolved hlayer.authored hlayer.replaced

/-- A shadow is written with calls in the form of its literal text: filled in with the literal
texts of the tokens that the calls name, the same form is the literal text. The text with calls is
there if all that a shadow has beside what is written of it can be written as well. -/
theorem value_of_isPlainShadow (hloaded : Loading.IsLoaded dictionary)
    (htoken : token ∈ dictionary.tokens) (hshadow : IsPlainShadow dictionary token)
    (options : RenderOptions) :
    ({ options with policy := .always false }.value token dictionary).result =
        shadowWith dictionary literalOf token.original token.value ∧
      ∀ text, ({ options with policy := .always true }.value token dictionary).result = .ok text ↔
        shadowWith dictionary (callOf options) token.original token.value = .ok text ∧
          ∀ layer ∈ layersOf token.original token.value,
            layer.1.usesReferences = true → RestHasText layer := by
  constructor
  · have htype : token.type ≠ some "fontFamily" := by simp [hshadow.type]
    rw [RenderOptions.value_of_policy_off rfl, literalText_of_type_ne htype,
      shadowWith_literalOf hloaded htoken hshadow]
  · intro text
    rw [RenderOptions.value_of_policy_on rfl]
    exact RenderOptions.kept_shadow hloaded htoken hshadow

/-- A shadow with a member that no shadow writes and that holds a color with percent signs in
it, and two shadows in one value, the first of them as an alias. -/
def shades : Object :=
  [("gap", .object [("$type", .text "dimension"),
      ("$value", .object [("value", .int 4), ("unit", .text "px")])]),
    ("card", .object [("$type", .text "shadow"),
      ("$value", .object [("offsetX", .int 0), ("offsetY", .text "\x7bgap\x7d"),
        ("color", .text "black"), ("hover", .object [("colorSpace", .text "srgb"),
          ("components", .list [.text "50%", .text "0%", .text "0%"])])])]),
    ("panel", .object [("$type", .text "shadow"),
      ("$value", .list [.text "\x7bcard\x7d", .object [("offsetX", .int 0),
        ("offsetY", .text "\x7bgap\x7d"), ("color", .text "black"), ("inset", .bool true)]])])]

def gapLength : Value := .object [("value", .int 4), ("unit", .text "px")]

def hoverColor : Value :=
  .object [("colorSpace", .text "srgb"),
    ("components", .list [.text "50%", .text "0%", .text "0%"])]

/-- The shadow of a card with a given vertical offset. -/
def cardValue (offset : Value) : Value :=
  .object [("offsetX", .int 0), ("offsetY", offset), ("color", .text "black"),
    ("hover", hoverColor)]

/-- An inner shadow with a given vertical offset. -/
def insetValue (offset : Value) : Value :=
  .object [("offsetX", .int 0), ("offsetY", offset), ("color", .text "black"),
    ("inset", .bool true)]

def cardShadow : Token :=
  ⟨["card"], "card", some "shadow", cardValue gapLength, cardValue (.text "\x7bgap\x7d"), none,
    none, [], none⟩

def panelShadow : Token :=
  ⟨["panel"], "panel", some "shadow", .list [cardValue gapLength, insetValue gapLength],
    .list [.text "\x7bcard\x7d", insetValue (.text "\x7bgap\x7d")], none, none, [], none⟩

def shadeTokens : Dictionary where
  tokens := [⟨["gap"], "gap", some "dimension", gapLength, gapLength, none, none, [], none⟩,
    cardShadow, panelShadow]
  nodup_paths := by decide

def shadesAuthored : List Authored :=
  [⟨["gap"], .text "dimension", gapLength, [], .null, none⟩,
    ⟨["card"], .text "shadow", cardShadow.original, [], .null, none⟩,
    ⟨["panel"], .text "shadow", panelShadow.original, [], .null, none⟩]

theorem isLoaded_shades : Loading.IsLoaded shadeTokens := by
  have hunique : (Value.object shades).UniqueKeys := by
    simp [shades, Value.UniqueKeys, Value.EntriesUnique, Value.ItemsUnique, Entries.keys]
  have hauthored : Loading.tokensOf (Tree.Keys.of true) shades = .ok shadesAuthored := rfl
  have hresolved : Resolution.resolve shadesAuthored none = .ok shadeTokens.tokens := by cbv
  exact .of_resolve hunique hauthored hresolved

theorem isPlace_gap : IsPlace shadeTokens (.text "\x7bgap\x7d") := by
  refine .inr ⟨"gap", rfl, ?_⟩
  rintro target ⟨⟩ items ⟨⟩

theorem isPlainShadow_card : IsPlainShadow shadeTokens cardShadow where
  type := rfl
  resolved := .inl ⟨rfl, rfl⟩
  authored := by
    refine .inl ⟨_, rfl, ?_⟩
    simp only [List.forall_mem_cons]
    exact ⟨.inl rfl, isPlace_gap, .inl rfl, .inl rfl, List.forall_mem_nil _⟩

theorem isPlainShadow_panel : IsPlainShadow shadeTokens panelShadow where
  type := rfl
  resolved := by
    refine .inr ⟨_, rfl, ?_⟩
    simp only [List.forall_mem_cons]
    exact ⟨⟨rfl, rfl⟩, ⟨rfl, rfl⟩, List.forall_mem_nil _⟩
  authored := by
    refine .inr ⟨_, rfl, ?_⟩
    simp only [List.forall_mem_cons]
    refine ⟨.inr ⟨"card", rfl, ?_⟩, ?_, List.forall_mem_nil _⟩
    · rintro target ⟨⟩ items ⟨⟩
    · simp only [insetValue, IsAuthoredLayer, List.forall_mem_cons]
      exact ⟨.inl rfl, isPlace_gap, .inl rfl, .inl rfl, List.forall_mem_nil _⟩

theorem value_of_isPlainShadow_panel :
    IsPlainShadow shadeTokens panelShadow ∧
      (RenderOptions.value { policy := .always true } panelShadow shadeTokens).result =
        .ok "var(--card), inset 0 var(--gap) black" ∧
      shadowWith shadeTokens (callOf {}) panelShadow.original panelShadow.value =
        .ok "var(--card), inset 0 var(--gap) black" ∧
      (RenderOptions.value { policy := .always false } panelShadow shadeTokens).result =
        .ok "0 4px black, inset 0 4px black" ∧
      shadowWith shadeTokens literalOf panelShadow.original panelShadow.value =
        .ok "0 4px black, inset 0 4px black" := by
  have hmem : panelShadow ∈ shadeTokens.tokens := by simp [shadeTokens]
  obtain ⟨hliteral, hkept⟩ := value_of_isPlainShadow isLoaded_shades hmem isPlainShadow_panel {}
  have hcalls : (RenderOptions.value { policy := .always true } panelShadow shadeTokens).result =
      .ok "var(--card), inset 0 var(--gap) black" := rfl
  have htext : (RenderOptions.value { policy := .always false } panelShadow shadeTokens).result =
      .ok "0 4px black, inset 0 4px black" := rfl
  exact ⟨isPlainShadow_panel, hcalls, ((hkept _).1 hcalls).1, htext, hliteral.symm.trans htext⟩

/-- A shadow with a literal text can fail to be written with calls. -/
theorem not_value_of_card :
    ¬ ∀ (dictionary : Dictionary) (token : Token) (options : RenderOptions) (literal : String),
      Loading.IsLoaded dictionary → token ∈ dictionary.tokens → IsPlainShadow dictionary token →
        ({ options with policy := .always false }.value token dictionary).result = .ok literal →
          ∃ text,
            ({ options with policy := .always true }.value token dictionary).result = .ok text ∧
            shadowWith dictionary (callOf options) token.original token.value = .ok text ∧
            shadowWith dictionary literalOf token.original token.value = .ok literal := by
  intro hall
  have hmem : cardShadow ∈ shadeTokens.tokens := by simp [shadeTokens]
  have hliteral : (RenderOptions.value { policy := .always false } cardShadow shadeTokens).result =
      .ok "0 4px black" := rfl
  obtain ⟨text, htext, -⟩ :=
    hall shadeTokens cardShadow {} "0 4px black" isLoaded_shades hmem isPlainShadow_card hliteral
  have hfails : (RenderOptions.value { policy := .always true } cardShadow shadeTokens).result =
      .error (.shape (.channelNotNumber "50%")) := rfl
  rw [hfails] at htext
  cases htext

end DesignTokens.Stylesheet
