import DesignTokens.Proofs.Traced
import DesignTokens.Stylesheet.Rendering

/-!
# Text that tells calls apart

In the text of a value the call of a property looks like any other text. Marked text
keeps the two apart: it is written by the same steps as the text, and forgetting the
marks gives the text. So the calls that stand in a value because of a reference are
those of its marked text, whatever the literal text around them looks like.
-/

namespace DesignTokens.Stylesheet

inductive Mark where
  | plain (text : String)
  | call (name : String)
deriving DecidableEq, Repr

abbrev Marked := List Mark

namespace Marked

variable (options : RenderOptions)

/-- The text without its marks. -/
def text : Marked → String
  | [] => ""
  | .plain s :: rest => s ++ text rest
  | .call name :: rest => options.call name ++ text rest

@[simp]
theorem text_nil : text options [] = "" := rfl

@[simp]
theorem text_plain_cons (s : String) (rest : Marked) :
    text options (.plain s :: rest) = s ++ text options rest := rfl

@[simp]
theorem text_call_cons (name : String) (rest : Marked) :
    text options (.call name :: rest) = options.call name ++ text options rest := rfl

@[simp]
theorem text_append (first second : Marked) :
    text options (first ++ second) = text options first ++ text options second := by
  induction first with
  | nil => simp
  | cons mark rest ih => cases mark <;> simp [ih, String.append_assoc]

/-- Parts joined with plain text. -/
def joined (separator : String) (parts : List Marked) : Marked :=
  [.plain separator].intercalate parts

theorem text_joined (separator : String) (parts : List Marked) :
    text options (joined separator parts) = separator.intercalate (parts.map (text options)) := by
  induction parts with
  | nil => simp [joined]
  | cons part rest ih =>
      cases rest with
      | nil => simp [joined]
      | cons second more =>
          rw [joined, List.intercalate_cons_cons, ← joined, text_append, text_append, ih]
          simp

theorem mem_joined {separator : String} {parts : List Marked} {name : String}
    (hmem : .call name ∈ joined separator parts) : ∃ part ∈ parts, .call name ∈ part := by
  induction parts with
  | nil => simp [joined] at hmem
  | cons part rest ih =>
      cases rest with
      | nil => exact ⟨part, by simp, by simpa [joined] using hmem⟩
      | cons second more =>
          rw [joined, List.intercalate_cons_cons, ← joined] at hmem
          simp only [List.mem_append, List.mem_singleton, reduceCtorEq, or_false] at hmem
          rcases hmem with hfirst | hrest
          · exact ⟨part, by simp, hfirst⟩
          · obtain ⟨other, hother, hcall⟩ := ih hrest
            exact ⟨other, List.mem_cons_of_mem part hother, hcall⟩

/-- A family name, quoted where its text needs quotes. -/
def family (name : Marked) : Marked :=
  if familyName (name.text options) = name.text options then name
  else .plain "'" :: name ++ [.plain "'"]

theorem text_family (name : Marked) :
    text options (family options name) = familyName (text options name) := by
  rw [family]
  split
  · next hsame => exact hsame.symm
  · next hquoted =>
      rw [familyName] at hquoted ⊢
      split
      · simp [String.append_assoc]
      · next hplain =>
          rw [if_neg hplain] at hquoted
          exact absurd rfl hquoted

theorem mem_family {marked : Marked} {name : String} (hmem : .call name ∈ family options marked) :
    .call name ∈ marked := by
  rw [family] at hmem
  split at hmem
  · exact hmem
  · simpa using hmem

/-- A font stack from the names of its families. -/
def stack (names : List Marked) : Marked :=
  joined ", " (names.map (family options))

theorem text_stack (names : List Marked) :
    text options (stack options names) = fontStack (names.map (text options)) := by
  rw [stack, text_joined, fontStack, List.map_map, List.map_map]
  exact congrArg _ (List.map_congr_left fun name _ => text_family options name)

/-- A shadow from its parts. -/
def shadow (inset : Bool) (parts : List Marked) : Marked :=
  if inset then .plain "inset " :: joined " " parts else joined " " parts

theorem text_shadow (inset : Bool) (parts : List Marked) :
    text options (shadow inset parts) = shadowOf inset (parts.map (text options)) := by
  cases inset <;> simp [shadow, shadowOf, text_joined]

/-- An object from its members. -/
def members (resolved : Object) (parts : List (String × Marked)) : Marked :=
  if (Value.object resolved).isShadow then
    shadow (isInset resolved) (shadowParts.filterMap fun part => Entries.get? parts part)
  else
    .plain "\x7b" :: joined "," (parts.map fun (key, part) => .plain (key ++ ":") :: part) ++
      [.plain "\x7d"]

/-- The members with their texts. -/
def textEntries (parts : List (String × Marked)) : List (String × String) :=
  parts.map fun (key, part) => (key, text options part)

theorem get?_textEntries (parts : List (String × Marked)) (key : String) :
    Entries.get? (textEntries options parts) key =
      (Entries.get? parts key).map (text options) := by
  induction parts with
  | nil => rfl
  | cons entry rest ih =>
      obtain ⟨k, part⟩ := entry
      rw [textEntries, List.map_cons, ← textEntries, Entries.get?_cons, Entries.get?_cons, ih]
      split <;> rfl

theorem text_members (resolved : Object) (parts : List (String × Marked)) :
    text options (members resolved parts) =
      RenderOptions.memberTexts resolved (textEntries options parts) := by
  rw [members, RenderOptions.memberTexts]
  split
  · rw [text_shadow, List.map_filterMap]
    simp only [get?_textEntries]
  · simp [text_joined, textEntries, Function.comp_def, String.append_assoc]

/-- A list from its items. -/
def items (type : Option String) (parts : List Marked) : Marked :=
  if type = some "fontFamily" then stack options parts else joined ", " parts

theorem text_items (type : Option String) (parts : List Marked) :
    text options (items options type parts) =
      RenderOptions.itemTexts type (parts.map (text options)) := by
  rw [items, RenderOptions.itemTexts]
  split
  · exact text_stack options parts
  · exact text_joined options ", " parts

variable {options : RenderOptions} {name : String}

theorem mem_shadow {inset : Bool} {parts : List Marked}
    (hmem : .call name ∈ shadow inset parts) : ∃ part ∈ parts, .call name ∈ part := by
  cases inset with
  | false => exact mem_joined hmem
  | true =>
      have hrest : .call name ∈ joined " " parts := by simpa [shadow] using hmem
      exact mem_joined hrest

theorem mem_members {resolved : Object} {parts : List (String × Marked)}
    (hmem : .call name ∈ members resolved parts) : ∃ entry ∈ parts, .call name ∈ entry.2 := by
  rw [members] at hmem
  split at hmem
  · obtain ⟨part, hpart, hcall⟩ := mem_shadow hmem
    obtain ⟨key, -, hkey⟩ := List.mem_filterMap.1 hpart
    exact ⟨(key, part), Entries.mem_of_get?_eq_some hkey, hcall⟩
  · have hjoined : .call name ∈ joined "," (parts.map fun (key, part) =>
        .plain (key ++ ":") :: part) := by simpa using hmem
    obtain ⟨part, hpart, hcall⟩ := mem_joined hjoined
    obtain ⟨entry, hentry, rfl⟩ := List.mem_map.1 hpart
    exact ⟨entry, hentry, by simpa using hcall⟩

theorem mem_items {type : Option String} {parts : List Marked}
    (hmem : .call name ∈ items options type parts) : ∃ part ∈ parts, .call name ∈ part := by
  rw [items] at hmem
  split at hmem
  · obtain ⟨part, hpart, hcall⟩ := mem_joined hmem
    obtain ⟨plain, hplain, rfl⟩ := List.mem_map.1 hpart
    exact ⟨plain, hplain, mem_family options hcall⟩
  · exact mem_joined hmem

end Marked

namespace RenderOptions

variable (options : RenderOptions) (dictionary : Dictionary)

/-- The marked call of the property that a reference names. -/
def markedReference (owner : TokenPath) (target : String) : Except Error Marked :=
  (fun token => [.call token.name]) <$> dictionary.lookup target (some owner)

def markedPiece (owner : TokenPath) (piece : Piece) : Except Error Marked :=
  match piece.target? with
  | none => pure [.plain (String.ofList piece.source)]
  | some target => markedReference dictionary owner target

def markedPieces (owner : TokenPath) : List Piece → Except Error Marked
  | [] => .ok []
  | piece :: rest => do
    let first ← markedPiece dictionary owner piece
    let others ← markedPieces owner rest
    return first ++ others

def markedText (owner : TokenPath) (text : String) : Except Error Marked :=
  match Reference.alias? text with
  | some target => markedReference dictionary owner target
  | none => markedPieces dictionary owner (Piece.ofText text)

def markedLiteral (type : Option String) (value : Value) : Traced Marked :=
  (fun text => [.plain text]) <$> literalText type value

mutual

/-- The marked form of a value in which references are kept. -/
def marked (token : Token) (original : Value) (resolved : Value) : Traced Marked :=
  if original.usesReferences then
    match original, resolved with
    | .text s, _ => .ofExcept (markedText dictionary token.path s)
    | .object authored, .object entries => do
      let parts ← markedEntries token authored entries
      return Marked.members entries parts
    | .list authored, .list items =>
      if authored.length = items.length then do
        let parts ← markedItems token authored items
        return Marked.items options token.type parts
      else
        markedLiteral token.type (.list items)
    | _, value => markedLiteral token.type value
  else
    markedLiteral token.type resolved
termination_by structural resolved

def markedEntries (token : Token) (authored : Object) :
    List (String × Value) → Traced (List (String × Marked))
  | [] => pure []
  | (key, value) :: rest => do
    let part ← marked token ((Entries.get? authored key).getD value) value
    let parts ← markedEntries token authored rest
    return (key, part) :: parts
termination_by structural entries => entries

def markedItems (token : Token) : List Value → List Value → Traced (List Marked)
  | original :: originals, item :: items => do
    let part ← marked token original item
    let parts ← markedItems token originals items
    return part :: parts
  | _, _ => pure []
termination_by structural _ items => items

end

/-- The marked form of a token's value. -/
def markedValue (token : Token) : Traced Marked := do
  if ← options.keeps token dictionary then
    marked options dictionary token token.original token.value
  else
    markedLiteral token.type token.value

/-! ### Forgetting the marks gives the text -/

theorem reference_eq_text (owner : TokenPath) (target : String) :
    options.reference dictionary owner target =
      Marked.text options <$> markedReference dictionary owner target := by
  simp [reference, markedReference]

theorem keptPieces_eq_text (owner : TokenPath) (pieces : List Piece) :
    options.keptPieces dictionary owner pieces =
      (fun marked => (Marked.text options marked).toList) <$>
        markedPieces dictionary owner pieces := by
  induction pieces with
  | nil => rfl
  | cons piece rest ih =>
      rw [keptPieces, markedPieces, markedPiece, ih]
      cases piece.target? with
      | none => simp [String.toList_append]
      | some target => simp [reference_eq_text, String.toList_append]

theorem keptText_eq_text (owner : TokenPath) (text : String) :
    options.keptText dictionary owner text =
      Marked.text options <$> markedText dictionary owner text := by
  rw [keptText, markedText]
  cases Reference.alias? text with
  | some target => exact reference_eq_text options dictionary owner target
  | none => simp [keptPieces_eq_text]

theorem literalText_eq_text (type : Option String) (value : Value) :
    literalText type value = Marked.text options <$> markedLiteral type value := by
  simp [markedLiteral]

theorem ofExcept_map {α β : Type} (f : α → β) (x : Except Error α) :
    Traced.ofExcept (f <$> x) = f <$> Traced.ofExcept x := by
  cases x <;> rfl

mutual

theorem kept_eq_text (token : Token) (original resolved : Value) :
    options.kept dictionary token original resolved =
      Marked.text options <$> marked options dictionary token original resolved := by
  unfold kept marked
  by_cases hreferences : original.usesReferences
  · rw [if_pos hreferences, if_pos hreferences]
    cases original with
    | text s =>
        dsimp only
        rw [keptText_eq_text, ofExcept_map]
    | object authored =>
        cases resolved with
        | object entries =>
            dsimp only
            rw [keptEntries_eq_text token authored entries]
            simp [Marked.text_members]
        | _ => exact literalText_eq_text options token.type _
    | list authored =>
        cases resolved with
        | list items =>
            dsimp only
            split
            · rw [keptItems_eq_text token authored items]
              simp [Marked.text_items]
            · exact literalText_eq_text options token.type (.list items)
        | _ => exact literalText_eq_text options token.type _
    | _ => exact literalText_eq_text options token.type resolved
  · rw [if_neg hreferences, if_neg hreferences]
    exact literalText_eq_text options token.type resolved
termination_by structural resolved

theorem keptEntries_eq_text (token : Token) (authored : Object) (entries : List (String × Value)) :
    options.keptEntries dictionary token authored entries =
      Marked.textEntries options <$> markedEntries options dictionary token authored entries := by
  cases entries with
  | nil => simp [keptEntries, markedEntries, Marked.textEntries]
  | cons entry rest =>
      rw [keptEntries, markedEntries, kept_eq_text token _ entry.2,
        keptEntries_eq_text token authored rest]
      simp [Marked.textEntries]
termination_by structural entries

theorem keptItems_eq_text (token : Token) (originals items : List Value) :
    options.keptItems dictionary token originals items =
      List.map (Marked.text options) <$> markedItems options dictionary token originals items := by
  cases items with
  | nil => cases originals <;> simp [keptItems, markedItems]
  | cons item rest =>
      cases originals with
      | nil => simp [keptItems, markedItems]
      | cons original others =>
          rw [keptItems, markedItems, kept_eq_text token original item,
            keptItems_eq_text token others rest]
          simp
termination_by structural items

end

/-- The text of a value is its marked form without the marks. -/
theorem value_eq_text (token : Token) :
    options.value token dictionary =
      Marked.text options <$> markedValue options dictionary token := by
  rw [value, markedValue, map_bind]
  apply bind_congr
  intro keep
  cases keep with
  | false => exact literalText_eq_text options token.type token.value
  | true => exact kept_eq_text options dictionary token token.original token.value

/-! ### Every call is that of a token of the dictionary -/

variable {options : RenderOptions} {dictionary : Dictionary} {name : String}

/-- The property is that of a token. -/
def IsNamed (dictionary : Dictionary) (name : String) : Prop :=
  ∃ token ∈ dictionary.tokens, token.name = name

theorem not_call_mem_literal {type : Option String} {value : Value} {marks : Marked}
    (hmarks : (markedLiteral type value).result = .ok marks) : .call name ∉ marks := by
  obtain ⟨text, -, rfl⟩ := Traced.map_eq_ok.1 hmarks
  simp

theorem isNamed_of_reference {owner : TokenPath} {target : String} {marks : Marked}
    (hmarks : markedReference dictionary owner target = .ok marks) (hmem : .call name ∈ marks) :
    IsNamed dictionary name := by
  obtain ⟨token, htoken, rfl⟩ := Failing.map_eq_ok.1 hmarks
  have hsame : name = token.name := by simpa using hmem
  subst hsame
  rw [Dictionary.lookup] at htoken
  split at htoken
  · next found hfound =>
      have hsame : found = token := by simpa using htoken
      subst hsame
      exact ⟨found, List.mem_of_find?_eq_some hfound, rfl⟩
  · cases htoken

theorem isNamed_of_pieces {owner : TokenPath} {pieces : List Piece} {marks : Marked}
    (hmarks : markedPieces dictionary owner pieces = .ok marks) (hmem : .call name ∈ marks) :
    IsNamed dictionary name := by
  induction pieces generalizing marks with
  | nil =>
      cases hmarks
      simp at hmem
  | cons piece rest ih =>
      rw [markedPieces] at hmarks
      obtain ⟨first, hfirst, hrest⟩ := Failing.bind_eq_ok.1 hmarks
      obtain ⟨others, hothers, hall⟩ := Failing.bind_eq_ok.1 hrest
      cases hall
      rcases List.mem_append.1 hmem with hhere | hlater
      · rw [markedPiece] at hfirst
        split at hfirst
        · cases hfirst
          simp at hhere
        · exact isNamed_of_reference hfirst hhere
      · exact ih hothers hlater

theorem isNamed_of_text {owner : TokenPath} {text : String} {marks : Marked}
    (hmarks : markedText dictionary owner text = .ok marks) (hmem : .call name ∈ marks) :
    IsNamed dictionary name := by
  rw [markedText] at hmarks
  split at hmarks
  · exact isNamed_of_reference hmarks hmem
  · exact isNamed_of_pieces hmarks hmem

mutual

theorem isNamed_of_marked {token : Token} {original : Value} (resolved : Value) {marks : Marked}
    (hmarks : (marked options dictionary token original resolved).result = .ok marks)
    (hmem : .call name ∈ marks) : IsNamed dictionary name := by
  unfold marked at hmarks
  by_cases hreferences : original.usesReferences
  · rw [if_pos hreferences] at hmarks
    cases original with
    | text s =>
        dsimp only at hmarks
        rw [Traced.result_ofExcept] at hmarks
        exact isNamed_of_text hmarks hmem
    | object authored =>
        cases resolved with
        | object entries =>
            dsimp only at hmarks
            obtain ⟨parts, hparts, hmembers⟩ := Traced.bind_eq_ok.1 hmarks
            cases hmembers
            obtain ⟨entry, hentry, hcall⟩ := Marked.mem_members hmem
            exact isNamed_of_markedEntries entries hparts hentry hcall
        | _ =>
            dsimp only at hmarks
            exact absurd hmem (not_call_mem_literal hmarks)
    | list authored =>
        cases resolved with
        | list items =>
            dsimp only at hmarks
            split at hmarks
            · obtain ⟨parts, hparts, hitems⟩ := Traced.bind_eq_ok.1 hmarks
              cases hitems
              obtain ⟨part, hpart, hcall⟩ := Marked.mem_items hmem
              exact isNamed_of_markedItems items hparts hpart hcall
            · exact absurd hmem (not_call_mem_literal hmarks)
        | _ =>
            dsimp only at hmarks
            exact absurd hmem (not_call_mem_literal hmarks)
    | _ =>
        dsimp only at hmarks
        exact absurd hmem (not_call_mem_literal hmarks)
  · rw [if_neg hreferences] at hmarks
    exact absurd hmem (not_call_mem_literal hmarks)
termination_by structural resolved

theorem isNamed_of_markedEntries {token : Token} {authored : Object}
    (entries : List (String × Value)) {parts : List (String × Marked)}
    (hparts : (markedEntries options dictionary token authored entries).result = .ok parts)
    {entry : String × Marked} (hentry : entry ∈ parts) (hmem : .call name ∈ entry.2) :
    IsNamed dictionary name := by
  cases entries with
  | nil =>
      rw [markedEntries] at hparts
      cases hparts
      simp at hentry
  | cons first rest =>
      rw [markedEntries] at hparts
      obtain ⟨part, hpart, hrest⟩ := Traced.bind_eq_ok.1 hparts
      obtain ⟨others, hothers, hall⟩ := Traced.bind_eq_ok.1 hrest
      cases hall
      rcases List.mem_cons.1 hentry with rfl | hlater
      · exact isNamed_of_marked first.2 hpart hmem
      · exact isNamed_of_markedEntries rest hothers hlater hmem
termination_by structural entries

theorem isNamed_of_markedItems {token : Token} {originals : List Value} (items : List Value)
    {parts : List Marked}
    (hparts : (markedItems options dictionary token originals items).result = .ok parts)
    {part : Marked} (hpart : part ∈ parts) (hmem : .call name ∈ part) :
    IsNamed dictionary name := by
  cases items with
  | nil =>
      cases originals <;> cases hparts <;> simp at hpart
  | cons item rest =>
      cases originals with
      | nil =>
          cases hparts
          simp at hpart
      | cons original others =>
          rw [markedItems] at hparts
          obtain ⟨first, hfirst, hrest⟩ := Traced.bind_eq_ok.1 hparts
          obtain ⟨later, hlater, hall⟩ := Traced.bind_eq_ok.1 hrest
          cases hall
          rcases List.mem_cons.1 hpart with rfl | hin
          · exact isNamed_of_marked item hfirst hmem
          · exact isNamed_of_markedItems rest hlater hin hmem
termination_by structural items

end

/-- A call in the value of any token is that of a property of the dictionary. -/
theorem isNamed_of_markedValue {token : Token} {marks : Marked}
    (hmarks : (markedValue options dictionary token).result = .ok marks)
    (hmem : .call name ∈ marks) : IsNamed dictionary name := by
  obtain ⟨keep, -, hvalue⟩ := Traced.bind_eq_ok.1 hmarks
  cases keep with
  | false => exact absurd hmem (not_call_mem_literal hvalue)
  | true => exact isNamed_of_marked token.value hvalue hmem

end RenderOptions

end DesignTokens.Stylesheet
