import DesignTokens.Proofs.Resolution.Members
import DesignTokens.Proofs.Stylesheet.TextStyles

/-!
# What a text style inherits

A variant of a text style has the parts that it lacks from the default of its group. The
resolved parts of the two are merged apart from the authored ones, and both stay in step: a
part is written as the authored part of the one token, the variant or its default, that
supplies it.
-/

namespace DesignTokens.Stylesheet

namespace Typography

/-- The last style of a mode that has a path apart from the mode. -/
def lastStyle? (tokens : List Token) (path : TokenPath) (mode : Option String) : Option Token :=
  tokens.reverse.find? fun token =>
    isComposite token && variantPath token == path && token.mode == mode

/-- The default of a style: that of its group and mode, or else that of its group without a
mode. A default has none itself. -/
def inheritedFrom? (tokens : List Token) (token : Token) : Option Token :=
  if (variantPath token).getLast? = some Token.defaultVariant then
    none
  else
    let path := (variantPath token).dropLast ++ [Token.defaultVariant]
    (lastStyle? tokens path token.mode).or (lastStyle? tokens path none)

/-- The one of a style and its default that supplies a part. -/
def supplier? (token : Token) (default : Option Token) (part : String) : Option Token :=
  if token.value.hasMember part then some token
  else default.filter fun other => other.value.hasMember part

/-- What is supplied for a part is neither null nor empty text. -/
def isDeclared (token : Token) (default : Option Token) (part : String) : Bool :=
  ((supplier? token default part).bind fun source => source.value.member? part).any
    fun value => !isAbsent value

/-- The declaration is that of a part: its text is what the authored part of the supplier is
written as. -/
inductive Declares (options : RenderOptions) (dictionary : Dictionary) (token : Token)
    (default : Option Token) (row : String × String × Option String) : Declaration → Prop
  | mk {source : Token} {value original : Value} {text : String}
      (hsource : supplier? token default row.1 = some source)
      (hvalue : source.value.member? row.1 = some value)
      (horiginal : Entries.get? (authoredParts source) row.1 = some original)
      (htext : (options.value { token with value, original, type := row.2.2.or token.type }
        dictionary).result = .ok text) :
      Declares options dictionary token default row ⟨row.2.1, text⟩

variable {tokens : List Token} {found : List (DefaultKey × Token)} {token full : Token}

/-! ## The default of a group -/

/-- A style that is the default of its group. -/
def isDefault (token : Token) : Bool :=
  isComposite token && (variantPath token).getLast? == some Token.defaultVariant

theorem variantName_eq_ok {name : String} :
    variantName token = .ok name ↔ (variantPath token).getLast? = some name := by
  rw [variantName]
  cases (variantPath token).getLast? <;> simp

theorem defaults_eq (hfound : defaults tokens = .ok found) :
    found = Entries.ofList ((tokens.filter isDefault).map fun token =>
      (((variantPath token).dropLast, token.mode), token)) := by
  rw [defaults] at hfound
  rw [Entries.ofList]
  -- The search starts from any defaults that are found already.
  generalize ([] : List (DefaultKey × Token)) = start at hfound ⊢
  induction tokens generalizing start with
  | nil =>
      cases hfound
      rfl
  | cons token rest ih =>
      obtain ⟨next, hnext, hrest⟩ := Failing.bind_eq_ok.1 hfound
      rw [ih next hrest, List.filter_cons, isDefault]
      dsimp only at hnext
      split at hnext
      · next hcomposite =>
          obtain ⟨name, hname, hnext⟩ := Failing.bind_eq_ok.1 hnext
          rw [hcomposite, variantName_eq_ok.1 hname]
          split at hnext
          · next hdefault =>
              cases hnext
              simp [hdefault, Entries.update]
          · next hother =>
              cases hnext
              simp [hother]
      · next hplain =>
          cases hnext
          simp [hplain]

theorem eq_append_singleton_iff {path group : TokenPath} {name : String} :
    path = group ++ [name] ↔ path.getLast? = some name ∧ path.dropLast = group := by
  constructor
  · rintro rfl
    simp
  · rintro ⟨hlast, rfl⟩
    exact (List.dropLast_append_getLast? name hlast).symm

/-- The default that is found for a group and a mode is the last one of them. -/
theorem get?_defaults (hfound : defaults tokens = .ok found) (group : TokenPath)
    (mode : Option String) :
    Entries.get? found (group, mode) =
      lastStyle? tokens (group ++ [Token.defaultVariant]) mode := by
  rw [defaults_eq hfound, Entries.get?_ofList, Entries.last?_eq_find?, lastStyle?]
  congr 1
  funext token
  rw [Bool.eq_iff_iff]
  simp [isDefault, eq_append_singleton_iff, and_assoc]

theorem isComposite_of_lastStyle? {path : TokenPath} {mode : Option String} {style : Token}
    (hstyle : lastStyle? tokens path mode = some style) :
    style ∈ tokens ∧ isComposite style = true := by
  have hkind := List.find?_some hstyle
  simp only [Bool.and_eq_true] at hkind
  exact ⟨List.mem_reverse.1 (List.mem_of_find?_eq_some hstyle), hkind.1.1⟩

theorem isComposite_of_inheritedFrom? {default : Token}
    (hdefault : inheritedFrom? tokens token = some default) :
    default ∈ tokens ∧ isComposite default = true := by
  rw [inheritedFrom?] at hdefault
  split at hdefault
  · cases hdefault
  · rcases Option.or_eq_some_iff.1 hdefault with hown | ⟨-, hunmoded⟩
    · exact isComposite_of_lastStyle? hown
    · exact isComposite_of_lastStyle? hunmoded

/-! ## A style with the parts of its default -/

/-- The style with the parts that it lacks taken from a default. -/
def filled (token : Token) : Option Token → Token
  | none => token
  | some default =>
    { token with
      value := .object
        (Entries.update (default.value.object?.getD []) (token.value.object?.getD []))
      original := .object (Entries.update (authoredParts default) (authoredParts token)) }

theorem exists_object_of_isComposite (hcomposite : isComposite token = true) :
    ∃ entries, token.value = .object entries :=
  Value.eq_object_of_isObject (Bool.and_eq_true_iff.1 hcomposite).2

theorem defaultOf?_eq (hfound : defaults tokens = .ok found)
    (hvariant : (variantPath token).getLast? ≠ some Token.defaultVariant) :
    defaultOf? found token = inheritedFrom? tokens token := by
  rw [defaultOf?, get?_defaults hfound, get?_defaults hfound, inheritedFrom?, if_neg hvariant]

theorem eq_filled_of_withDefault (hfound : defaults tokens = .ok found)
    (hcomposite : isComposite token = true) (hfull : withDefault found token = .ok full) :
    full = filled token (inheritedFrom? tokens token) := by
  obtain ⟨name, hname, hfull⟩ := Failing.bind_eq_ok.1 hfull
  rw [variantName_eq_ok] at hname
  split at hfull
  · next hdefault =>
      cases hfull
      rw [inheritedFrom?, if_pos (hname.trans (congrArg some hdefault))]
      rfl
  · next hother =>
      have hvariant : (variantPath token).getLast? ≠ some Token.defaultVariant := by
        rwa [hname, ne_eq, Option.some.injEq]
      rw [defaultOf?_eq hfound hvariant] at hfull
      cases hdefault : inheritedFrom? tokens token with
      | none =>
          rw [hdefault] at hfull
          cases hfull
          rfl
      | some default =>
          obtain ⟨own, hown⟩ := exists_object_of_isComposite hcomposite
          obtain ⟨inherited, hinherited⟩ :=
            exists_object_of_isComposite (isComposite_of_inheritedFrom? hdefault).2
          rw [hdefault] at hfull
          dsimp only at hfull
          rw [hinherited, hown] at hfull
          cases hfull
          rw [filled, hinherited, hown]
          rfl

/-- What either has of a part, the style before its default, is what the supplier has. -/
theorem bind_supplier? {α : Type} {f : Token → Option α} {default : Option Token} {part : String}
    (htoken : (f token).isSome = token.value.hasMember part)
    (hdefault : ∀ other ∈ default, (f other).isSome = other.value.hasMember part) :
    (supplier? token default part).bind f = (f token).or (default.bind f) := by
  rw [supplier?, ← htoken]
  cases hown : f token with
  | some own => simp [hown]
  | none =>
      cases default with
      | none => rfl
      | some other =>
          rw [Option.filter_some, ← hdefault other rfl]
          cases hother : f other <;> simp [hother]

/-- The resolved and the authored parts of a style have the same names. -/
structure InStep (token : Token) : Prop where
  nodup : (Entries.keys (token.value.object?.getD [])).Nodup
  keys_eq : Entries.keys (authoredParts token) = Entries.keys (token.value.object?.getD [])

theorem get?_object?_getD (v : Value) (part : String) :
    Entries.get? (v.object?.getD []) part = v.member? part := by
  rw [Value.member?]
  cases v.object? <;> rfl

variable {default : Option Token} {part : String}

theorem InStep.isSome_authored (hstep : InStep token) (part : String) :
    (Entries.get? (authoredParts token) part).isSome = token.value.hasMember part := by
  rw [Value.hasMember, ← get?_object?_getD, Bool.eq_iff_iff, Entries.isSome_get?_iff,
    Entries.isSome_get?_iff, hstep.keys_eq]

/-- The resolved part of a filled style is that of the supplier. -/
theorem member?_filled (hstep : InStep token) :
    (filled token default).value.member? part =
      (supplier? token default part).bind fun source => source.value.member? part := by
  rw [bind_supplier? rfl fun _ _ => rfl]
  cases default with
  | none => exact Option.or_none.symm
  | some other =>
      rw [Option.bind_some, ← get?_object?_getD, ← get?_object?_getD, ← get?_object?_getD]
      exact Entries.get?_update_of_nodup hstep.nodup part

/-- The authored part of a filled style is that of the supplier. -/
theorem get?_authoredParts_filled (hstep : InStep token)
    (hdefault : ∀ other ∈ default, InStep other) :
    Entries.get? (authoredParts (filled token default)) part =
      (supplier? token default part).bind fun source =>
        Entries.get? (authoredParts source) part := by
  rw [bind_supplier? (hstep.isSome_authored part) fun other hother =>
    (hdefault other hother).isSome_authored part]
  cases default with
  | none => exact Option.or_none.symm
  | some other =>
      apply Entries.get?_update_of_nodup
      rw [hstep.keys_eq]
      exact hstep.nodup

/-! ## The class of a style -/

/-- The token of a part of a style, if the part is there and not blank. -/
def partToken? (token : Token) (row : String × String × Option String) :
    Option (String × Token) :=
  ((token.value.member? row.1).filter fun value => !isAbsent value).map fun value =>
    (row.2.1, partToken token row.1 row.2.2 value)

theorem partTokens_eq (token : Token) : partTokens token = parts.filterMap (partToken? token) := by
  rw [partTokens]
  congr 1
  funext ⟨part, property, type⟩
  rw [partToken?, Value.member?]
  dsimp only
  split
  · next value hvalue =>
      rw [hvalue, Option.filter_some]
      cases isAbsent value <;> rfl
  · next hnone =>
      rw [hnone]
      rfl

variable {dictionary : Dictionary} {options : RenderOptions}

theorem isSome_partToken?_filled (hstep : InStep token) (row : String × String × Option String) :
    (partToken? (filled token default) row).isSome = isDeclared token default row.1 := by
  rw [partToken?, isDeclared, Option.isSome_map, Option.isSome_filter, member?_filled hstep]

theorem inStep_of_supplier? (hstep : InStep token) (hdefault : ∀ other ∈ default, InStep other)
    {source : Token} (hsource : supplier? token default part = some source) : InStep source := by
  rw [supplier?] at hsource
  split at hsource
  · cases hsource
    exact hstep
  · exact hdefault source (Option.filter_eq_some_iff.1 hsource).1

theorem partToken_filled (part : String) (type : Option String) (value : Value) :
    partToken (filled token default) part type value =
      { token with
        value
        original := (Entries.get? (authoredParts (filled token default)) part).getD value
        type := type.or token.type } := by
  cases default <;> rfl

theorem declares_of_partToken? (hstep : InStep token)
    (hdefault : ∀ other ∈ default, InStep other) {row : String × String × Option String}
    {entry : String × Token} (hentry : partToken? (filled token default) row = some entry)
    {text : String} (htext : (options.value entry.2 dictionary).result = .ok text) :
    Declares options dictionary token default row ⟨entry.1, text⟩ := by
  obtain ⟨value, hfilter, rfl⟩ := Option.map_eq_some_iff.1 hentry
  rw [Option.filter_eq_some_iff, member?_filled hstep, Option.bind_eq_some_iff] at hfilter
  obtain ⟨⟨source, hsource, hvalue⟩, -⟩ := hfilter
  have hauthored := (inStep_of_supplier? hstep hdefault hsource).isSome_authored row.1
  rw [Value.hasMember, hvalue, Option.isSome_some, Option.isSome_iff_exists] at hauthored
  obtain ⟨original, horiginal⟩ := hauthored
  dsimp only at htext
  rw [partToken_filled, get?_authoredParts_filled hstep hdefault, hsource, Option.bind_some,
    horiginal] at htext
  exact .mk hsource hvalue horiginal htext

theorem forall₂_declares (hstep : InStep token) (hdefault : ∀ other ∈ default, InStep other)
    {declared : List Declaration}
    (hdeclared : (declarations (filled token default) dictionary options).result = .ok declared) :
    List.Forall₂ (Declares options dictionary token default)
      (parts.filter fun row => isDeclared token default row.1) declared := by
  rw [declarations, partTokens_eq] at hdeclared
  have hparts := Paired.of_filterMap (Traced.mapM_eq_ok.1 hdeclared)
  simp only [isSome_partToken?_filled hstep] at hparts
  refine hparts.imp ?_
  rintro row declaration ⟨entry, hentry, hrun⟩
  obtain ⟨text, htext, rfl⟩ := Traced.map_eq_ok.1 hrun
  exact declares_of_partToken? hstep hdefault hentry htext

end Typography

open Typography

variable {dictionary : Dictionary} {options : RenderOptions} {tokens : List Token}

theorem inStep_of_isLoaded (hloaded : Loading.IsLoaded dictionary) {token : Token}
    (htoken : token ∈ dictionary.tokens) (hcomposite : isComposite token = true) :
    InStep token := by
  obtain ⟨entries, hentries⟩ := exists_object_of_isComposite hcomposite
  have hunique := hloaded.uniqueKeys_value htoken
  have hreplaced := (hloaded.replaced htoken).2
  rw [hentries] at hunique hreplaced
  refine ⟨?_, ?_⟩
  · rw [hentries]
    exact hunique.nodup
  · rw [authoredParts, hentries]
    cases horiginal : token.original with
    | object authored =>
        rw [horiginal] at hreplaced
        obtain ⟨values, hvalues, hmembers⟩ := hreplaced
        cases hvalues
        exact (Value.keys_of_entriesReplaced hmembers).symm
    | _ =>
        -- An alias of another style has no authored parts but those that it stands for.
        rfl

theorem exists_classItems_eq (classes : List Item) :
    ∃ front, classItems classes = front ++ classes := by
  rw [classItems]
  split
  · next hnone => exact ⟨[], hnone.symm⟩
  · exact ⟨[_], rfl⟩

theorem exists_declared_of_isClass (hloaded : Loading.IsLoaded dictionary) {token : Token}
    (htoken : token ∈ dictionary.tokens) (hcomposite : isComposite token = true) {item : Item}
    (hclass : IsClass options dictionary token item) :
    ∃ declared, item = .block ("." ++ className token) declared [] ∧
      List.Forall₂ (Declares options dictionary token (inheritedFrom? dictionary.tokens token))
        (parts.filter fun row =>
          isDeclared token (inheritedFrom? dictionary.tokens token) row.1) declared := by
  obtain ⟨found, full, declared, hfound, hfull, hdeclared⟩ := hclass
  rw [eq_filled_of_withDefault hfound hcomposite hfull] at hdeclared
  refine ⟨declared, rfl, forall₂_declares ?_ ?_ hdeclared⟩
  · exact inStep_of_isLoaded hloaded htoken hcomposite
  · intro other hother
    obtain ⟨hmem, hstyle⟩ := isComposite_of_inheritedFrom? hother
    exact inStep_of_isLoaded hloaded hmem hstyle

/-- Every text style among the tokens has a class. For a style of the dictionary it declares, in
the order of the parts, one property for each part that the style or else its default
supplies, and as its text what the supplier's authored part is written as. -/
theorem typographyItems_inheriting (hloaded : Loading.IsLoaded dictionary) {elements : Bool}
    {items : List Item}
    (hitems : (typographyItems tokens dictionary options elements).result = .ok items) :
    ∃ front classes, items = front ++ classes ∧ List.Forall₂ (fun token item =>
      token ∈ dictionary.tokens → ∃ declared,
        item = .block ("." ++ className token) declared [] ∧
        List.Forall₂
          (Declares options dictionary token (inheritedFrom? dictionary.tokens token))
          (parts.filter fun row =>
            isDeclared token (inheritedFrom? dictionary.tokens token) row.1) declared)
      (tokens.filter isComposite) classes := by
  obtain ⟨-, styles, rfl, hstyles, hclasses⟩ := exists_of_typographyItems hitems
  obtain ⟨heading, hheading⟩ := exists_classItems_eq (styles.map classOf)
  rw [hheading, ← List.append_assoc]
  refine ⟨_, _, rfl, ?_⟩
  rw [← hstyles, List.forall₂_map_left_iff, List.forall₂_map_right_iff, List.forall₂_same]
  intro style hstyle htoken
  have hcomposite : style.1 ∈ tokens.filter isComposite := by
    rw [← hstyles]
    exact List.mem_map_of_mem hstyle
  exact exists_declared_of_isClass hloaded htoken (List.mem_filter.1 hcomposite).2
    (hclasses style hstyle)

/-- A default, and a variant that leaves out the weight and adds a line height. -/
def headings : Object :=
  [("gap", .object [("$value", .text "4px")]),
    ("heading", .object [("$type", .text "typography"),
      ("default", .object [("$value", .object [("fontFamily", .text "Inter"),
        ("fontSize", .text "\x7bgap\x7d"), ("fontWeight", .int 700)])]),
      ("small", .object [("$value", .object [("fontWeight", .text ""), ("lineHeight", .int 1)])])])]

def defaultHeading : Token :=
  ⟨["heading", "default"], "heading-default", some "typography",
    .object [("fontFamily", .text "Inter"), ("fontSize", .text "4px"), ("fontWeight", .int 700)],
    .object [("fontFamily", .text "Inter"), ("fontSize", .text "\x7bgap\x7d"),
      ("fontWeight", .int 700)],
    none, none, [], none⟩

def smallHeading : Token :=
  ⟨["heading", "small"], "heading-small", some "typography",
    .object [("fontWeight", .text ""), ("lineHeight", .int 1)],
    .object [("fontWeight", .text ""), ("lineHeight", .int 1)], none, none, [], none⟩

def headingTokens : Dictionary where
  tokens := [⟨["gap"], "gap", none, .text "4px", .text "4px", none, none, [], none⟩,
    defaultHeading, smallHeading]
  nodup_paths := by decide

def headingsAuthored : List Authored :=
  [⟨["gap"], .null, .text "4px", [], .null, none⟩,
    ⟨["heading", "default"], .text "typography", defaultHeading.original, [], .null, none⟩,
    ⟨["heading", "small"], .text "typography", smallHeading.original, [], .null, none⟩]

theorem isLoaded_headings : Loading.IsLoaded headingTokens := by
  have hunique : (Value.object headings).UniqueKeys := by
    simp [headings, Value.UniqueKeys, Value.EntriesUnique, Entries.keys]
  have hauthored : Loading.tokensOf (Tree.Keys.of true) headings = .ok headingsAuthored := rfl
  have hresolved : Resolution.resolve headingsAuthored none = .ok headingTokens.tokens := by cbv
  exact .of_resolve hunique hauthored hresolved

def smallHeadingItems : List Item :=
  [.comment "Typography utility classes",
    .block ".heading-small" [⟨"font-family", "Inter"⟩, ⟨"font-size", "var(--gap)"⟩,
      ⟨"line-height", "1"⟩] []]

theorem typographyItems_inheriting_headings :
    inheritedFrom? headingTokens.tokens smallHeading = some defaultHeading ∧
      (typographyItems [smallHeading] headingTokens {} false).result = .ok smallHeadingItems ∧
      ∃ front classes, smallHeadingItems = front ++ classes ∧ List.Forall₂ (fun token item =>
        token ∈ headingTokens.tokens → ∃ declared,
          item = .block ("." ++ className token) declared [] ∧
          List.Forall₂
            (Declares {} headingTokens token (inheritedFrom? headingTokens.tokens token))
            (parts.filter fun row =>
              isDeclared token (inheritedFrom? headingTokens.tokens token) row.1) declared)
        ([smallHeading].filter isComposite) classes :=
  have hitems : (typographyItems [smallHeading] headingTokens {} false).result =
      .ok smallHeadingItems := rfl
  ⟨rfl, hitems, typographyItems_inheriting isLoaded_headings hitems⟩

end DesignTokens.Stylesheet
