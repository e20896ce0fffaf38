import DesignTokens.Proofs.Stylesheet.Channels
import DesignTokens.Proofs.Stylesheet.DeclaredOnce

/-!
# Documents that fail over their tokens

A document asks its settings for two things only: an axis for the widths and a second color
mode. Where both are there, it fails over the tokens alone, and the error says so.
-/

namespace DesignTokens.Stylesheet

open Failing

/-- The error concerns tokens: a reference without a token, two tokens of one name, the
channels of a color, or a token without a path. -/
inductive ConcernsTokens : Error → Prop
  | reference (name : String) (owner : Option TokenPath) :
      ConcernsTokens (.problem (.missingReference name owner) none)
  | names (first second : TokenPath) (name mode : String) :
      ConcernsTokens (.problem (.sameName first second name mode) none)
  | channels {error : Error} (hfault : IsChannelFault error) : ConcernsTokens error
  | path : ConcernsTokens (.shape .noPath)

/-! ## Values -/

theorem failsOnly_tokens_literalText (type : Option String) (value : Value) :
    FailsOnly ConcernsTokens (literalText type value).result :=
  (failsOnly_channels_literalText type value).mono fun _ => .channels

theorem failsOnly_lookup (dictionary : Dictionary) (reference : String)
    (owner : Option TokenPath) : FailsOnly ConcernsTokens (dictionary.lookup reference owner) := by
  rw [Dictionary.lookup]
  split
  · exact .of_ok _
  · exact .of_error (.reference reference owner)

namespace RenderOptions

variable {options : RenderOptions} {dictionary : Dictionary}

theorem failsOnly_reference (owner : TokenPath) (target : String) :
    FailsOnly ConcernsTokens (options.reference dictionary owner target) :=
  (failsOnly_lookup dictionary target (some owner)).map _

theorem failsOnly_keptPieces (owner : TokenPath) (pieces : List Piece) :
    FailsOnly ConcernsTokens (options.keptPieces dictionary owner pieces) := by
  induction pieces with
  | nil => exact .of_ok []
  | cons piece rest ih =>
      have hrest : ∀ chars : List Char, FailsOnly ConcernsTokens (do
          let others ← options.keptPieces dictionary owner rest
          return chars ++ others) := fun chars => ih.bind fun others _ => .of_ok _
      cases piece with
      | plain chars => exact hrest chars
      | reference inner =>
          exact ((failsOnly_reference owner _).map String.toList).bind fun chars _ => hrest chars

theorem failsOnly_keptText (owner : TokenPath) (text : String) :
    FailsOnly ConcernsTokens (options.keptText dictionary owner text) := by
  rw [keptText]
  split
  · exact failsOnly_reference owner _
  · exact (failsOnly_keptPieces owner _).map String.ofList

mutual

theorem failsOnly_tokens_kept (token : Token) (original resolved : Value) :
    FailsOnly ConcernsTokens (options.kept dictionary token original resolved).result := by
  have hliteral := failsOnly_tokens_literalText token.type
  unfold kept
  split
  · cases original with
    | text s =>
        dsimp only
        rw [Traced.result_ofExcept]
        exact failsOnly_keptText token.path s
    | object authored =>
        cases resolved with
        | object entries =>
            dsimp only
            exact Traced.failsOnly_bind (failsOnly_tokens_keptEntries token authored entries)
              fun _ _ => .of_ok _
        | _ => exact hliteral _
    | list authored =>
        cases resolved with
        | list items =>
            dsimp only
            split
            · exact Traced.failsOnly_bind (failsOnly_tokens_keptItems token authored items)
                fun _ _ => .of_ok _
            · exact hliteral (.list items)
        | _ => exact hliteral _
    | _ => exact hliteral resolved
  · exact hliteral resolved
termination_by structural resolved

theorem failsOnly_tokens_keptEntries (token : Token) (authored : Object)
    (entries : List (String × Value)) :
    FailsOnly ConcernsTokens (options.keptEntries dictionary token authored entries).result := by
  cases entries with
  | nil => exact .of_ok []
  | cons entry rest =>
      rw [keptEntries]
      refine Traced.failsOnly_bind (failsOnly_tokens_kept token _ entry.2) fun _ _ => ?_
      exact Traced.failsOnly_bind (failsOnly_tokens_keptEntries token authored rest)
        fun _ _ => .of_ok _
termination_by structural entries

theorem failsOnly_tokens_keptItems (token : Token) (originals items : List Value) :
    FailsOnly ConcernsTokens (options.keptItems dictionary token originals items).result := by
  cases items with
  | nil =>
      cases originals with
      | nil => exact .of_ok []
      | cons original rest => exact .of_ok []
  | cons item rest =>
      cases originals with
      | nil => exact .of_ok []
      | cons original others =>
          rw [keptItems]
          refine Traced.failsOnly_bind (failsOnly_tokens_kept token original item) fun _ _ => ?_
          exact Traced.failsOnly_bind (failsOnly_tokens_keptItems token others rest)
            fun _ _ => .of_ok _
termination_by structural items

end

/-- Where nobody is asked whether references are kept, only the tokens can leave a value
without a text. -/
theorem failsOnly_value {keep : Bool} (hpolicy : options.policy = .always keep) (token : Token) :
    FailsOnly ConcernsTokens (options.value token dictionary).result := by
  have hkeeps : FailsOnly ConcernsTokens (options.keeps token dictionary) := by
    rw [keeps, hpolicy]
    split
    · exact .of_ok _
    · exact .of_ok _
  refine Traced.failsOnly_bind hkeeps fun kept _ => ?_
  split
  · exact failsOnly_tokens_kept token token.original token.value
  · exact failsOnly_tokens_literalText token.type token.value

end RenderOptions

/-! ## Documents -/

variable {tokens : List Token} {dictionary : Dictionary} {options : RenderOptions} {keep : Bool}

theorem IsCollision.concernsTokens {lead : Option String} {error : Error}
    (hcollision : IsCollision tokens lead error) : ConcernsTokens error := by
  obtain ⟨first, -, second, -, name, mode, -, -, rfl⟩ := hcollision
  exact .names first.path second.path name mode

namespace Typography

theorem failsOnly_variantName (token : Token) : FailsOnly ConcernsTokens (variantName token) := by
  rw [variantName]
  split
  · exact .of_ok _
  · exact .of_error .path

theorem failsOnly_defaults (tokens : List Token) : FailsOnly ConcernsTokens (defaults tokens) := by
  refine .foldlM (fun token _ found => ?_) []
  split
  · refine (failsOnly_variantName token).bind fun name _ => ?_
    split
    · exact .of_ok _
    · exact .of_ok _
  · exact .of_ok _

theorem failsOnly_withDefault (found : List (DefaultKey × Token)) (token : Token) :
    FailsOnly ConcernsTokens (withDefault found token) := by
  refine (failsOnly_variantName token).bind fun name _ => ?_
  split
  · exact .of_ok _
  · split
    · exact .of_ok _
    · split
      · exact .of_ok _
      · exact .of_ok _

theorem failsOnly_declarations (hpolicy : options.policy = .always keep) (token : Token) :
    FailsOnly ConcernsTokens (declarations token dictionary options).result := by
  rw [declarations, Traced.result_mapM]
  exact .mapM fun part _ => Traced.failsOnly_map (RenderOptions.failsOnly_value hpolicy part.2) _

end Typography

theorem failsOnly_typographyItems (hpolicy : options.policy = .always keep) (elements : Bool) :
    FailsOnly ConcernsTokens (typographyItems tokens dictionary options elements).result := by
  refine Traced.failsOnly_bind (failsOnly_declareOwn fun token _ =>
    RenderOptions.failsOnly_value hpolicy token) fun root _ => ?_
  extract_lets properties
  split
  · exact .of_ok properties
  · apply Traced.failsOnly_bind
    · exact Typography.failsOnly_defaults dictionary.tokens
    · intro found _
      refine Traced.failsOnly_bind ?_ fun styles _ => .of_ok _
      rw [Traced.result_mapM]
      refine .mapM fun token _ => ?_
      apply Traced.failsOnly_bind
      · exact Typography.failsOnly_withDefault found token
      · exact fun full _ => Traced.failsOnly_bind
          (Typography.failsOnly_declarations hpolicy full) fun _ _ => .of_ok _

namespace Assembly

variable {assembly : Assembly} {axis : ModeAxis} {darkMode : String}
  (hpolicy : assembly.options.policy = .always keep)

include hpolicy

/-- The document of one mode fails over its tokens only. -/
theorem failsOnly_modeText (category mode : String) :
    FailsOnly ConcernsTokens (assembly.modeText category mode tokens dictionary).result := by
  rw [modeText]
  split
  · exact .of_ok _
  · refine Traced.failsOnly_bind (Traced.failsOnly_foldlM (fun token _ done => ?_) _)
      fun _ _ => .of_ok _
    refine Traced.failsOnly_bind ?_ fun entered _ =>
      Traced.failsOnly_bind (Traced.failsOnly_map
        (RenderOptions.failsOnly_value hpolicy token) _) fun _ _ => .of_ok _
    rw [Mode.enter]
    split
    · exact .of_error (.names _ _ _ _)
    · exact .of_ok _

variable (hsecond : assembly.colorAxis.second? = some darkMode)

include hsecond

section

variable {bad : Error → Prop} (htokens : ∀ error, ConcernsTokens error → bad error)
  (haxis : FailsOnly bad (Breakpoint.axis assembly.breakpoints))

include htokens haxis

theorem failsOnly_tokens_categoryItems (category : String) :
    FailsOnly bad (assembly.categoryItems category tokens dictionary).result := by
  have hvalue (token : Token) :
      FailsOnly bad (assembly.options.value token dictionary).result :=
    (RenderOptions.failsOnly_value hpolicy token).mono htokens
  have hname {selected : List Token} (error : Error)
      (hcollision : IsCollision selected assembly.options.lead error) : bad error :=
    htokens error hcollision.concernsTokens
  rw [categoryItems]
  split
  · exact Traced.failsOnly_bind (failsOnly_colorPart hsecond (fun token _ => hvalue token)
      hname assembly.strategy) fun _ _ => .of_ok _
  split
  · exact Traced.failsOnly_bind (failsOnly_widthPart haxis (fun token _ => hvalue token) hname)
      fun _ _ => .of_ok _
  split
  · exact (failsOnly_typographyItems hpolicy assembly.elements).mono htokens
  · exact Traced.failsOnly_bind (failsOnly_declareOwn fun token _ => hvalue token)
      fun _ _ => .of_ok _

/-- The document of a category fails over its tokens, or for want of an axis for the widths. -/
theorem failsOnly_categoryText_of_axis (category : String) :
    FailsOnly bad (assembly.categoryText category tokens dictionary).result := by
  rw [result_categoryText]
  split
  · exact .of_ok _
  · exact (failsOnly_tokens_categoryItems hpolicy hsecond htokens haxis category).map itemsText

end

variable (haxis : Breakpoint.axis assembly.breakpoints = .ok axis)

include haxis

/-- The document of a category fails over its tokens only. -/
theorem failsOnly_categoryText (category : String) :
    FailsOnly ConcernsTokens (assembly.categoryText category tokens dictionary).result :=
  failsOnly_categoryText_of_axis hpolicy hsecond (fun _ => id) (.of_eq_ok haxis) category

/-- The document of all categories fails over its tokens only. -/
theorem failsOnly_combinedText :
    FailsOnly ConcernsTokens (assembly.combinedText tokens dictionary).result := by
  have hvalue : ∀ token,
      FailsOnly ConcernsTokens (assembly.options.value token dictionary).result :=
    RenderOptions.failsOnly_value hpolicy
  apply Traced.failsOnly_map
  refine Traced.failsOnly_bind (failsOnly_declareOwn fun token _ => hvalue token) fun _ _ => ?_
  refine Traced.failsOnly_bind (failsOnly_colorPart hsecond (fun token _ => hvalue token)
    (fun _ => IsCollision.concernsTokens) assembly.strategy) fun _ _ => ?_
  refine Traced.failsOnly_bind (failsOnly_widthPart (.of_eq_ok haxis) (fun token _ => hvalue token)
    fun _ => IsCollision.concernsTokens) fun _ _ => ?_
  extract_lets composites
  split
  · exact .of_ok _
  · exact Traced.failsOnly_bind (failsOnly_typographyItems hpolicy assembly.elements)
      fun _ _ => .of_ok _

end Assembly

end DesignTokens.Stylesheet
