import DesignTokens.Proofs.Reference.Asked
import DesignTokens.Proofs.Stylesheet.Shadows

/-!
# The references that a writer looks up

Three readers come to the references of a value: the one that only lists them, the one that
replaces them when a dictionary is loaded, and the one that writes them as calls. The last one
walks over the authored and the resolved value at once and takes the members of an object from
the resolved one. In a loaded dictionary all three find the same references in the same order.
-/

namespace DesignTokens.Reference

/-- What stands between the first and the last character of a text, without the blanks
around it and around the text. -/
def sliced (text : String) : String :=
  String.ofList
    (Text.trimWhere Text.isBlank (Text.trimWhere Text.isBlank text.toList).tail.dropLast)

theorem eq_sliced_of_isAlias {text reference : String} (halias : IsAlias text reference) :
    reference = sliced text := by
  obtain ⟨inner, -, htext, rfl⟩ := halias
  rw [sliced, htext, List.cons_append, List.tail_cons, List.dropLast_concat, target]

end DesignTokens.Reference

namespace DesignTokens.Stylesheet

namespace RenderOptions

/-! ## The walk with any way to find a token -/

section Walk

variable {m : Type → Type} [Monad m] (options : RenderOptions) (find : String → m Token)

/-- The pieces of a text with a call for every reference, if `find` gives the tokens. -/
def piecesWith : List Piece → m (List Char)
  | [] => pure []
  | piece :: rest => do
    let chars ← match piece.target? with
      | none => pure piece.source
      | some target => (fun token => (options.call token.name).toList) <$> find target
    let others ← piecesWith rest
    return chars ++ others

def textWith (text : String) : m String :=
  match Reference.alias? text with
  | some target => (fun token => options.call token.name) <$> find target
  | none => String.ofList <$> options.piecesWith find (Piece.ofText text)

variable [MonadLiftT Traced m]

mutual

/-- The text of a resolved value with the references of the authored one kept, if `find` gives
the tokens that they name. -/
def keptWith (type : Option String) (original : Value) (resolved : Value) : m String :=
  if original.usesReferences then
    match original, resolved with
    | .text s, _ => options.textWith find s
    | .object authored, .object entries => do
      let texts ← keptEntriesWith type authored entries
      return memberTexts entries texts
    | .list authored, .list items =>
      if authored.length = items.length then do
        let texts ← keptItemsWith type authored items
        return itemTexts type texts
      else
        literalText type (.list items)
    | _, value => literalText type value
  else
    literalText type resolved
termination_by structural resolved

def keptEntriesWith (type : Option String) (authored : Object) :
    List (String × Value) → m (List (String × String))
  | [] => pure []
  | (key, value) :: rest => do
    let original := (Entries.get? authored key).getD value
    let text ← keptWith type original value
    let texts ← keptEntriesWith type authored rest
    return (key, text) :: texts
termination_by structural entries => entries

def keptItemsWith (type : Option String) : List Value → List Value → m (List String)
  | original :: originals, item :: items => do
    let text ← keptWith type original item
    let texts ← keptItemsWith type originals items
    return text :: texts
  | _, _ => pure []
termination_by structural _ items => items

end

end Walk

/-! ## What the walk asks for -/

section Asks

variable {m : Type → Type} [Monad m] [LawfulMonad m] (options : RenderOptions)
  (find : String → m Token)

theorem asks_call (reference : String) :
    Asks ((fun token => options.call token.name) <$> asking find reference)
      ((fun token => options.call token.name) <$> find reference) [reference] :=
  (Asks.of_asking find reference).map _

theorem asks_piecesWith (pieces : List Piece) :
    Asks (options.piecesWith (asking find) pieces) (options.piecesWith find pieces)
      (pieces.filterMap Piece.target?) := by
  induction pieces with
  | nil => exact .of_pure []
  | cons piece rest ih =>
      cases piece with
      | plain chars =>
          have hplain := ih.map (chars ++ ·)
          simpa [piecesWith, Piece.target?, Piece.source, List.filterMap_cons] using hplain
      | reference inner =>
          have hcall := (asks_call options find (Reference.target inner)).map String.toList
          have hrest := hcall.bind fun text => ih.map (text ++ ·)
          simpa [piecesWith, Piece.target?, Reference.target] using hrest

theorem asks_textWith (text : String) :
    Asks (options.textWith (asking find) text) (options.textWith find text)
      (Reference.targets text) := by
  rw [textWith, textWith]
  cases halias : Reference.alias? text with
  | some reference =>
      rw [Reference.targets_of_alias? halias]
      exact asks_call options find reference
  | none =>
      rw [Reference.targets]
      simpa using (asks_piecesWith options find (Piece.ofText text)).map String.ofList

variable {options find} [MonadLiftT Traced m] {lookup : TokenPath → Option Value}

mutual

/-- Over a value and its resolved form the walk asks for the references of the value. -/
theorem asks_keptWith (type : Option String) (original : Value) {resolved : Value}
    (hunique : original.UniqueKeys) (hreplaced : original.Replaced lookup resolved) :
    Asks (options.keptWith (asking find) type original resolved)
      (options.keptWith find type original resolved) original.references := by
  unfold keptWith
  by_cases hreferences : original.usesReferences
  · rw [if_pos hreferences, if_pos hreferences]
    cases original with
    | text s => exact asks_textWith options find s
    | object authored =>
        obtain ⟨values, rfl, hvalues⟩ := hreplaced
        have hentries := asks_keptEntriesWith type authored
          (fun entry hmem => Entries.get?_eq_some_of_mem hunique.nodup hmem)
          (fun entry hmem => hunique.of_mem hmem) hvalues
        simpa [Value.references] using hentries.map (memberTexts values)
    | list authored =>
        obtain ⟨values, rfl, hvalues⟩ := hreplaced
        have hitems := asks_keptItemsWith type authored (Value.uniqueKeys_list_iff.1 hunique)
          hvalues
        have hlength : authored.length = values.length :=
          (Value.itemsReplaced_iff.1 hvalues).length_eq
        dsimp only
        rw [if_pos hlength, if_pos hlength]
        simpa [Value.references] using hitems.map (itemTexts type)
    | _ => cases hreferences
  · rw [if_neg hreferences, if_neg hreferences]
    have hnone := Value.usesReferences_eq_false_iff.1 (Bool.eq_false_of_not_eq_true hreferences)
    rw [hnone]
    exact .of_lift _
termination_by structural original

/-- The entries are some of the members of `whole`, with which the walk looks them up. -/
theorem asks_keptEntriesWith (type : Option String) {whole : Object}
    (entries : List (String × Value)) {values : Object}
    (hwhole : ∀ entry ∈ entries, Entries.get? whole entry.1 = some entry.2)
    (hunique : ∀ entry ∈ entries, entry.2.UniqueKeys)
    (hreplaced : Value.EntriesReplaced lookup entries values) :
    Asks (options.keptEntriesWith (asking find) type whole values)
      (options.keptEntriesWith find type whole values) (Value.entryReferences entries) := by
  cases entries with
  | nil =>
      cases hreplaced
      exact .of_pure []
  | cons entry rest =>
      obtain ⟨first, others, rfl, hfirst, hothers⟩ := hreplaced
      rw [List.forall_mem_cons] at hwhole hunique
      have hrest := asks_keptEntriesWith type rest hwhole.2 hunique.2 hothers
      rw [keptEntriesWith, keptEntriesWith, hwhole.1, Option.getD_some]
      apply (asks_keptWith type entry.2 hunique.1 hfirst).bind
      intro text
      simpa using hrest.map ((entry.1, text) :: ·)
termination_by structural entries

theorem asks_keptItemsWith (type : Option String) (items : List Value) {values : List Value}
    (hunique : ∀ item ∈ items, item.UniqueKeys)
    (hreplaced : Value.ItemsReplaced lookup items values) :
    Asks (options.keptItemsWith (asking find) type items values)
      (options.keptItemsWith find type items values) (Value.itemReferences items) := by
  cases items with
  | nil =>
      cases hreplaced
      exact .of_pure []
  | cons item rest =>
      obtain ⟨first, others, rfl, hfirst, hothers⟩ := hreplaced
      rw [List.forall_mem_cons] at hunique
      have hrest := asks_keptItemsWith type rest hunique.2 hothers
      rw [keptItemsWith, keptItemsWith]
      apply (asks_keptWith type item hunique.1 hfirst).bind
      intro text
      simpa using hrest.map (text :: ·)
termination_by structural items

end

end Asks

/-! ## The writer as such a walk -/

/-- A token of the dictionary for a reference that stands in the token at `owner`. -/
def lookUp (dictionary : Dictionary) (owner : TokenPath) (reference : String) : Traced Token :=
  .ofExcept (dictionary.lookup reference (some owner))

variable (options : RenderOptions) (dictionary : Dictionary)

theorem piecesWith_lookUp (owner : TokenPath) (pieces : List Piece) :
    options.piecesWith (lookUp dictionary owner) pieces =
      .ofExcept (options.keptPieces dictionary owner pieces) := by
  induction pieces with
  | nil => rfl
  | cons piece rest ih =>
      cases piece with
      | plain chars =>
          simp [piecesWith, keptPieces, Piece.target?, ih, Traced.ofExcept_map]
      | reference inner =>
          simp [piecesWith, keptPieces, Piece.target?, ih, RenderOptions.reference, lookUp,
            Traced.ofExcept_map, Traced.ofExcept_bind]

theorem textWith_lookUp (owner : TokenPath) (text : String) :
    options.textWith (lookUp dictionary owner) text =
      .ofExcept (options.keptText dictionary owner text) := by
  rw [textWith, keptText]
  cases Reference.alias? text with
  | some reference =>
      dsimp only
      rw [RenderOptions.reference, Traced.ofExcept_map, lookUp]
  | none =>
      dsimp only
      rw [piecesWith_lookUp, Traced.ofExcept_map]

mutual

/-- The writer is the walk that finds its tokens in the dictionary. -/
theorem keptWith_lookUp (token : Token) (original resolved : Value) :
    options.keptWith (lookUp dictionary token.path) token.type original resolved =
      options.kept dictionary token original resolved := by
  unfold keptWith kept
  split
  · cases original with
    | text s => exact textWith_lookUp options dictionary token.path s
    | object authored =>
        cases resolved with
        | object entries =>
            dsimp only
            rw [keptEntriesWith_lookUp token authored entries]
        | _ => rfl
    | list authored =>
        cases resolved with
        | list items =>
            dsimp only
            rw [keptItemsWith_lookUp token authored items]
            rfl
        | _ => rfl
    | _ => rfl
  · rfl
termination_by structural resolved

theorem keptEntriesWith_lookUp (token : Token) (authored : Object)
    (entries : List (String × Value)) :
    options.keptEntriesWith (lookUp dictionary token.path) token.type authored entries =
      options.keptEntries dictionary token authored entries := by
  cases entries with
  | nil => rfl
  | cons entry rest =>
      rw [keptEntriesWith, keptEntries, keptWith_lookUp token _ entry.2,
        keptEntriesWith_lookUp token authored rest]
termination_by structural entries

theorem keptItemsWith_lookUp (token : Token) (originals items : List Value) :
    options.keptItemsWith (lookUp dictionary token.path) token.type originals items =
      options.keptItems dictionary token originals items := by
  cases items with
  | nil => cases originals <;> rfl
  | cons item rest =>
      cases originals with
      | nil => rfl
      | cons original others =>
          rw [keptItemsWith, keptItems, keptWith_lookUp token original item,
            keptItemsWith_lookUp token others rest]
termination_by structural items

end

/-- Reading a value, replacing its references and writing it with calls come to the same
references, in the same order and as often: none for a value without any, and the one between
the braces for a text that is a reference. -/
theorem asks_references (original : Value) :
    (∀ {m : Type → Type} [Monad m] [LawfulMonad m] (ask : String → m Value),
      Asks (original.substitute (asking ask)) (original.substitute ask) original.references ∧
        (original.references = [] → original.substitute ask = pure original)) ∧
      (∀ (options : RenderOptions) (dictionary : Dictionary) (token : Token),
        Loading.IsLoaded dictionary → token ∈ dictionary.tokens → token.original = original →
          Asks (options.keptWith (asking (lookUp dictionary token.path)) token.type original
              token.value)
            (options.kept dictionary token original token.value) original.references ∧
          (original.references = [] → token.value = original ∧
            options.kept dictionary token original token.value =
              literalText token.type original)) ∧
      ∀ text reference, original = .text text → Reference.IsAlias text reference →
        original.references = [reference] ∧ reference = Reference.sliced text := by
  refine ⟨?_, ?_, ?_⟩
  · intro m _ _ ask
    exact ⟨Value.asks_substitute ask original, Value.substitute_of_references ask original⟩
  · intro options dictionary token hloaded htoken horiginal
    obtain ⟨hunique, hreplaced⟩ := hloaded.replaced htoken
    rw [horiginal] at hunique hreplaced
    have hasks : Asks (options.keptWith (asking (lookUp dictionary token.path)) token.type
        original token.value) _ original.references :=
      asks_keptWith token.type original hunique hreplaced
    rw [keptWith_lookUp] at hasks
    refine ⟨hasks, ?_⟩
    intro hplain
    have hsame := hreplaced.eq_self original hplain
    exact ⟨hsame, by rw [kept_eq_literalText hplain, hsame]⟩
  · rintro text reference rfl halias
    have htargets := Reference.targets_of_alias? (Reference.alias?_eq_some_iff.2 halias)
    exact ⟨htargets, Reference.eq_sliced_of_isAlias halias⟩

/-- A reference between blanks and one behind stray braces, beside a plain member. -/
def spaced : Object :=
  [("ink", .object [("$value", .text "#111")]),
    ("edge", .object [("$value", .object [
      ("line", .list [.text " \x7b ink \x7d ", .text "\x7b\x7d \x7b\x7bink\x7d"]),
      ("width", .int 1)])])]

def spacedEdge : Token :=
  ⟨["edge"], "edge", none,
    .object [("line", .list [.text "#111", .text "\x7b\x7d \x7b#111"]), ("width", .int 1)],
    .object [("line", .list [.text " \x7b ink \x7d ", .text "\x7b\x7d \x7b\x7bink\x7d"]),
      ("width", .int 1)],
    none, none, [], none⟩

def spacedTokens : Dictionary where
  tokens := [⟨["ink"], "ink", none, .text "#111", .text "#111", none, none, [], none⟩, spacedEdge]
  nodup_paths := by decide

def spacedAuthored : List Authored :=
  [⟨["ink"], .null, .text "#111", [], .null, none⟩,
    ⟨["edge"], .null, spacedEdge.original, [], .null, none⟩]

theorem isLoaded_spaced : Loading.IsLoaded spacedTokens := by
  have hunique : (Value.object spaced).UniqueKeys := by
    simp [spaced, Value.UniqueKeys, Value.EntriesUnique, Value.ItemsUnique, Entries.keys]
  have hauthored : Loading.tokensOf (Tree.Keys.of true) spaced = .ok spacedAuthored := rfl
  have hresolved : Resolution.resolve spacedAuthored none = .ok spacedTokens.tokens := by cbv
  exact .of_resolve hunique hauthored hresolved

/-- The three readers over the edge, and a reference between blanks on its own. -/
theorem asks_references_spaced :
    (∀ asked : List String,
      (keptWith {} (asking (lookUp spacedTokens ["edge"])) none spacedEdge.original
          spacedEdge.value : StateT (List String) Traced String).run asked =
        (fun text => (text, asked ++ ["ink", "ink"])) <$>
          kept {} spacedTokens spacedEdge spacedEdge.original spacedEdge.value) ∧
      (kept {} spacedTokens spacedEdge spacedEdge.original spacedEdge.value).result =
        .ok "\x7bline:var(--ink), \x7b\x7d \x7bvar(--ink),width:1\x7d" ∧
      (∀ asked : List String,
        (spacedEdge.original.substitute (asking fun _ => some (.text "#111"))).run asked =
          some (spacedEdge.value, asked ++ ["ink", "ink"])) ∧
      (Value.text " \x7b ink \x7d ").references = ["ink"] ∧
      "ink" = Reference.sliced " \x7b ink \x7d " := by
  have hmem : spacedEdge ∈ spacedTokens.tokens := by simp [spacedTokens]
  have halias : Reference.IsAlias " \x7b ink \x7d " "ink" := Reference.alias?_eq_some_iff.1 rfl
  obtain ⟨hreplaced, hwritten, -⟩ := asks_references spacedEdge.original
  have hkept := (hwritten {} spacedTokens spacedEdge isLoaded_spaced hmem rfl).1
  have hvalue : spacedEdge.original.substitute (fun _ => some (.text "#111")) =
      some spacedEdge.value := by cbv
  refine ⟨hkept, rfl, ?_, (asks_references (.text " \x7b ink \x7d ")).2.2 _ _ rfl halias⟩
  intro asked
  rw [(hreplaced fun _ => some (.text "#111")).1 asked, hvalue]
  rfl

end RenderOptions

end DesignTokens.Stylesheet
