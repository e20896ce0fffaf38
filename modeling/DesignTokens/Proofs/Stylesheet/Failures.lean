import DesignTokens.Proofs.Files.Loaded
import DesignTokens.Proofs.Stylesheet.Channels
import DesignTokens.Stylesheet.Rendering

/-!
# Why a value cannot be written

Literal text fails only for the shape of a value. Keeping references could also fail for a
reference that names no token, but not in a loaded dictionary: the authored and the resolved
value of a token have the same members and the same length at every depth, so the walk over
both comes to no reference that was not resolved.
-/

namespace DesignTokens

/-- Every one of the references names a token. -/
def Dictionary.Knows (dictionary : Dictionary) (references : List String) : Prop :=
  ∀ reference ∈ references, ∃ token ∈ dictionary.tokens, token.path = Reference.path reference

theorem Dictionary.exists_lookup_eq_ok {dictionary : Dictionary} {reference : String}
    (hknown : ∃ token ∈ dictionary.tokens, token.path = Reference.path reference)
    (referrer : Option TokenPath) : ∃ token, dictionary.lookup reference referrer = .ok token := by
  obtain ⟨token, htoken, hpath⟩ := hknown
  have hfound : (dictionary.get? (Reference.path reference)).isSome :=
    List.find?_isSome.2 ⟨token, htoken, by simp [hpath]⟩
  obtain ⟨found, hfound⟩ := Option.isSome_iff_exists.1 hfound
  exact ⟨found, by rw [lookup, hfound]⟩

namespace Stylesheet

open Failing

/-- The error concerns the shape of a value. -/
def IsShape (error : Error) : Prop :=
  ∃ fault, error = .shape fault

theorem IsChannelFault.isShape {error : Error} (hfault : IsChannelFault error) :
    IsShape error := by
  cases hfault <;> exact ⟨_, rfl⟩

/-- Literal text fails only for the shape of a value. -/
theorem failsOnly_literalText (type : Option String) (value : Value) :
    FailsOnly IsShape (literalText type value).result :=
  (failsOnly_channels_literalText type value).mono fun _ => IsChannelFault.isShape

/-! ## Text with references kept -/

namespace RenderOptions

variable {options : RenderOptions} {dictionary : Dictionary}

theorem exists_reference_eq_ok (options : RenderOptions) {reference : String} (owner : TokenPath)
    (hknown : ∃ token ∈ dictionary.tokens, token.path = Reference.path reference) :
    ∃ text, options.reference dictionary owner reference = .ok text := by
  obtain ⟨token, htoken⟩ := Dictionary.exists_lookup_eq_ok hknown (some owner)
  exact ⟨options.call token.name, by rw [RenderOptions.reference, htoken]; rfl⟩

theorem exists_keptPieces_eq_ok (options : RenderOptions) (owner : TokenPath) {pieces : List Piece}
    (hknows : dictionary.Knows (pieces.filterMap Piece.target?)) :
    ∃ chars, options.keptPieces dictionary owner pieces = .ok chars := by
  induction pieces with
  | nil => exact ⟨[], rfl⟩
  | cons piece rest ih =>
      cases piece with
      | plain chars =>
          obtain ⟨others, hothers⟩ := ih hknows
          exact ⟨chars ++ others, by simp [keptPieces, Piece.target?, hothers, Piece.source]⟩
      | reference inner =>
          simp only [List.filterMap_cons, Piece.target?, Dictionary.Knows,
            List.forall_mem_cons] at hknows
          obtain ⟨text, htext⟩ := exists_reference_eq_ok options owner hknows.1
          obtain ⟨others, hothers⟩ := ih hknows.2
          refine ⟨text.toList ++ others, ?_⟩
          simp only [keptPieces, Piece.target?, htext, hothers]
          rfl

theorem exists_keptText_eq_ok (options : RenderOptions) (owner : TokenPath) {text : String}
    (hknows : dictionary.Knows (Reference.targets text)) :
    ∃ kept, options.keptText dictionary owner text = .ok kept := by
  rw [keptText]
  cases halias : Reference.alias? text with
  | some reference =>
      rw [Reference.targets_of_alias? halias] at hknows
      exact exists_reference_eq_ok options owner (hknows reference (List.mem_singleton_self _))
  | none =>
      obtain ⟨chars, hchars⟩ := exists_keptPieces_eq_ok options owner hknows
      exact ⟨String.ofList chars, by simp [hchars]⟩

variable {lookup : TokenPath → Option Value}

mutual

/-- Where every reference of the authored value names a token, a value is written with its
references unless its shape forbids it. -/
theorem failsOnly_kept (token : Token) (original : Value) {resolved : Value}
    (hunique : original.UniqueKeys) (hknows : dictionary.Knows original.references)
    (hreplaced : original.Replaced lookup resolved) :
    FailsOnly IsShape (options.kept dictionary token original resolved).result := by
  unfold kept
  by_cases hreferences : original.usesReferences
  · rw [if_pos hreferences]
    cases original with
    | text s =>
        obtain ⟨text, htext⟩ := exists_keptText_eq_ok options token.path hknows
        dsimp only
        rw [htext]
        exact .of_ok text
    | object authored =>
        obtain ⟨values, rfl, hvalues⟩ := hreplaced
        dsimp only
        apply Traced.failsOnly_bind
        · apply failsOnly_keptEntries token authored _ _ hknows hvalues
          · exact fun entry hmem => Entries.get?_eq_some_of_mem hunique.nodup hmem
          · exact fun entry hmem => hunique.of_mem hmem
        · exact fun _ _ => .of_ok _
    | list authored =>
        obtain ⟨values, rfl, hvalues⟩ := hreplaced
        dsimp only
        split
        · apply Traced.failsOnly_bind
          · apply failsOnly_keptItems token authored _ hknows hvalues
            exact Value.uniqueKeys_list_iff.1 hunique
          · exact fun _ _ => .of_ok _
        · exact failsOnly_literalText token.type (.list values)
    | _ => exact failsOnly_literalText token.type resolved
  · rw [if_neg hreferences]
    exact failsOnly_literalText token.type resolved
termination_by structural original

/-- The entries are some of the members of `whole`, with which the walk looks them up. -/
theorem failsOnly_keptEntries (token : Token) {whole : Object}
    (entries : List (String × Value)) {values : Object}
    (hwhole : ∀ entry ∈ entries, Entries.get? whole entry.1 = some entry.2)
    (hunique : ∀ entry ∈ entries, entry.2.UniqueKeys)
    (hknows : dictionary.Knows (Value.entryReferences entries))
    (hreplaced : Value.EntriesReplaced lookup entries values) :
    FailsOnly IsShape (options.keptEntries dictionary token whole values).result := by
  cases entries with
  | nil =>
      cases hreplaced
      exact .of_ok []
  | cons entry rest =>
      obtain ⟨first, others, rfl, hfirst, hothers⟩ := hreplaced
      rw [List.forall_mem_cons] at hwhole hunique
      obtain ⟨hknowsFirst, hknowsRest⟩ := List.forall_mem_append.1 hknows
      rw [keptEntries, hwhole.1, Option.getD_some]
      apply Traced.failsOnly_bind (failsOnly_kept token entry.2 hunique.1 hknowsFirst hfirst)
      intro text _
      apply Traced.failsOnly_bind
        (failsOnly_keptEntries token rest hwhole.2 hunique.2 hknowsRest hothers)
      exact fun _ _ => .of_ok _
termination_by structural entries

theorem failsOnly_keptItems (token : Token) (items : List Value) {values : List Value}
    (hunique : ∀ item ∈ items, item.UniqueKeys)
    (hknows : dictionary.Knows (Value.itemReferences items))
    (hreplaced : Value.ItemsReplaced lookup items values) :
    FailsOnly IsShape (options.keptItems dictionary token items values).result := by
  cases items with
  | nil =>
      cases hreplaced
      exact .of_ok []
  | cons item rest =>
      obtain ⟨first, others, rfl, hfirst, hothers⟩ := hreplaced
      rw [List.forall_mem_cons] at hunique
      obtain ⟨hknowsFirst, hknowsRest⟩ := List.forall_mem_append.1 hknows
      rw [keptItems]
      apply Traced.failsOnly_bind (failsOnly_kept token item hunique.1 hknowsFirst hfirst)
      intro text _
      apply Traced.failsOnly_bind (failsOnly_keptItems token rest hunique.2 hknowsRest hothers)
      exact fun _ _ => .of_ok _
termination_by structural items

end

/-! ## Values of loaded tokens -/

theorem knows_of_isLoaded (hloaded : Loading.IsLoaded dictionary) {token : Token}
    (htoken : token ∈ dictionary.tokens) : dictionary.Knows token.original.references := by
  intro reference hreference
  obtain ⟨value, hvalue⟩ := (hloaded.replaced htoken).2.exists_of_mem _ hreference
  obtain ⟨target, htarget, -⟩ := Option.map_eq_some_iff.1 hvalue
  have hpath := List.find?_some htarget
  exact ⟨target, List.mem_of_find?_eq_some htarget, by simpa using hpath⟩

/-- A value of a loaded dictionary cannot be written only for its shape, or as the policy
itself fails. -/
theorem shape_or_policy_of_value (hloaded : Loading.IsLoaded dictionary) {token : Token}
    (htoken : token ∈ dictionary.tokens) {error : Error}
    (herror : (options.value token dictionary).result = .error error) :
    IsShape error ∨ options.keeps token dictionary = .error error := by
  revert error
  apply Traced.failsOnly_bind
  · exact fun error herror => .inr herror
  · intro keep _ error herror
    obtain ⟨hunique, hreplaced⟩ := hloaded.replaced htoken
    cases keep with
    | false => exact .inl (failsOnly_literalText _ _ error herror)
    | true =>
        have hknows := knows_of_isLoaded hloaded htoken
        exact .inl (failsOnly_kept token _ hunique hknows hreplaced error herror)

/-- No value of a loaded dictionary is refused for a reference that names no token, whatever
the options are, unless the predicate that is asked about the references does so itself. -/
theorem value_ne_missingReference (hloaded : Loading.IsLoaded dictionary) {token : Token}
    (htoken : token ∈ dictionary.tokens) (options : RenderOptions) (reference : String)
    (owner : Option TokenPath) (context : Option Context) :
    (options.value token dictionary).result ≠
        .error (.problem (.missingReference reference owner) context) ∨
      ∃ decide, options.policy = .when decide ∧ decide token ⟨dictionary, options.dtcg⟩ =
        .error (.problem (.missingReference reference owner) context) := by
  rw [or_iff_not_imp_left, not_not]
  intro herror
  rcases shape_or_policy_of_value hloaded htoken herror with ⟨fault, hfault⟩ | hkeeps
  · cases hfault
  · rw [keeps] at hkeeps
    split at hkeeps
    · split at hkeeps
      · cases hkeeps
      · next decide hpolicy => exact ⟨decide, hpolicy, hkeeps⟩
    · cases hkeeps

/-- A color, and a value that refers to it at two depths. -/
def layered : Object :=
  [("ink", .object [("$value", .text "#111")]),
    ("edge", .object [("$value", .object [
      ("line", .list [.text "\x7bink\x7d", .text "1px solid \x7bink\x7d"]), ("color", .int 0)])])]

def layeredEdge : Token :=
  ⟨["edge"], "edge", none,
    .object [("line", .list [.text "#111", .text "1px solid #111"]), ("color", .int 0)],
    .object [("line", .list [.text "\x7bink\x7d", .text "1px solid \x7bink\x7d"]),
      ("color", .int 0)],
    none, none, [], none⟩

def layeredTokens : Dictionary where
  tokens := [⟨["ink"], "ink", none, .text "#111", .text "#111", none, none, [], none⟩, layeredEdge]
  nodup_paths := by decide

def layeredAuthored : List Authored :=
  [⟨["ink"], .null, .text "#111", [], .null, none⟩,
    ⟨["edge"], .null, layeredEdge.original, [], .null, none⟩]

theorem isLoaded_layered : Loading.IsLoaded layeredTokens := by
  have hunique : (Value.object layered).UniqueKeys := by
    simp [layered, Value.UniqueKeys, Value.EntriesUnique, Value.ItemsUnique, Entries.keys]
  have hauthored : Loading.tokensOf (Tree.Keys.of true) layered = .ok layeredAuthored := rfl
  have hresolved : Resolution.resolve layeredAuthored none = .ok layeredTokens.tokens := by cbv
  exact .of_resolve hunique hauthored hresolved

theorem value_ne_missingReference_layered :
    layeredEdge.original.references = ["ink", "ink"] ∧
      ∀ (options : RenderOptions) (reference : String) (owner : Option TokenPath)
        (context : Option Context),
        (options.value layeredEdge layeredTokens).result ≠
            .error (.problem (.missingReference reference owner) context) ∨
          ∃ decide, options.policy = .when decide ∧
            decide layeredEdge ⟨layeredTokens, options.dtcg⟩ =
              .error (.problem (.missingReference reference owner) context) :=
  have hmem : layeredEdge ∈ layeredTokens.tokens := by simp [layeredTokens]
  ⟨rfl, value_ne_missingReference isLoaded_layered hmem⟩

end RenderOptions

end Stylesheet

end DesignTokens
