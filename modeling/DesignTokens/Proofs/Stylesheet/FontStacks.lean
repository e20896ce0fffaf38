import Mathlib
import DesignTokens.Proofs.Resolution.Members
import DesignTokens.Proofs.Stylesheet.Embedded

/-!
# Font stacks that name other font stacks

The families of a stack are written one after another, each quoted where it needs quotes. A
stack can take in what another token holds. Where that is one family, the text is that of a
flat stack. Where it is a stack itself, it is written as one family, in the notation that
messages have for lists, and that is longer than its families are in any flat stack.
-/

namespace DesignTokens.Value

mutual

/-- A family name, or a list of such values. -/
def IsStack : Value → Prop
  | .text _ => True
  | .list items => ItemsAreStacks items
  | _ => False
termination_by structural value => value

def ItemsAreStacks : List Value → Prop
  | [] => True
  | item :: rest => IsStack item ∧ ItemsAreStacks rest
termination_by structural items => items

end

mutual

/-- The family names in a value, in their order. -/
def families : Value → List String
  | .text name => [name]
  | .list items => itemFamilies items
  | _ => []
termination_by structural value => value

def itemFamilies : List Value → List String
  | [] => []
  | item :: rest => families item ++ itemFamilies rest
termination_by structural items => items

end

theorem families_list (items : List Value) :
    (Value.list items).families = items.flatMap families := by
  rw [families]
  induction items with
  | nil => rfl
  | cons item rest ih => rw [itemFamilies, ih, List.flatMap_cons]

end DesignTokens.Value

namespace DesignTokens.Stylesheet

/-! ## How long a stack is -/

/-- The room that texts take up in a list, each with what parts it from the next. -/
def room (texts : List String) : Nat :=
  (texts.map fun text => text.length + 2).sum

theorem room_cons (text : String) (texts : List String) :
    room (text :: texts) = text.length + 2 + room texts := by
  rw [room, room, List.map_cons, List.sum_cons]

theorem length_joined (texts : List String) : (", ".intercalate texts).length = room texts - 2 := by
  induction texts with
  | nil => rfl
  | cons text rest ih =>
      cases rest with
      | nil => simp [room]
      | cons next more =>
          have hseparator : ", ".length = 2 := rfl
          rw [String.intercalate_cons_cons, String.length_append, String.length_append, ih,
            hseparator]
          simp only [room_cons]
          omega

/-- The room of the families of a stack. -/
def familyRoom (names : List String) : Nat :=
  room (names.map familyName)

theorem length_fontStack (names : List String) : (fontStack names).length = familyRoom names - 2 :=
  length_joined _

theorem familyRoom_append (first second : List String) :
    familyRoom (first ++ second) = familyRoom first + familyRoom second := by
  simp [familyRoom, room]

theorem length_familyName (name : String) :
    name.length ≤ (familyName name).length ∧ (familyName name).length ≤ name.length + 2 := by
  rw [familyName]
  split
  · have hquote : "'".length = 1 := rfl
    rw [String.length_append, String.length_append, hquote]
    omega
  · omega

theorem one_le_length_escapeIn (quote c : Char) : 1 ≤ (Text.escapeIn quote c).length := by
  rw [Text.escapeIn]
  split_ifs <;> simp

theorem length_le_length_flatMap {α β : Type} {f : α → List β} (hf : ∀ x, 1 ≤ (f x).length)
    (xs : List α) : xs.length ≤ (xs.flatMap f).length := by
  induction xs with
  | nil => exact le_rfl
  | cons x xs ih =>
      rw [List.flatMap_cons, List.length_append, List.length_cons]
      have hx := hf x
      omega

theorem length_le_quoted (name : String) : name.length + 2 ≤ (Text.quoted name).length := by
  have hchars := length_le_length_flatMap
    (one_le_length_escapeIn (Text.quoteFor name.toList)) name.toList
  rw [String.length_toList] at hchars
  simp only [Text.quoted, String.length_ofList, List.length_append, List.length_cons,
    List.length_nil]
  omega

theorem room_le_length_shown (items : List Value) :
    room (Data.shownItems (Value.toDataItems items)) ≤ (Value.list items).toData.shown.length ∧
      2 ≤ (Value.list items).toData.shown.length := by
  have hbrackets : "[".length = 1 ∧ "]".length = 1 := ⟨rfl, rfl⟩
  rw [Value.toData, Data.shown, String.length_append, String.length_append, length_joined]
  omega

mutual

/-- In the notation of messages a family takes up no less room than in a stack. -/
theorem familyRoom_families_le (v : Value) (hstack : v.IsStack) :
    familyRoom v.families ≤ v.toData.shown.length + 2 := by
  cases v with
  | text name =>
      have hname := (length_familyName name).2
      have hquoted := length_le_quoted name
      change (familyName name).length + 2 + 0 ≤ (Text.quoted name).length + 2
      omega
  | list items =>
      have hitems := familyRoom_itemFamilies_le items hstack
      have hshown := room_le_length_shown items
      rw [Value.families]
      omega
  | _ => cases hstack
termination_by structural v

theorem familyRoom_itemFamilies_le (items : List Value) (hstack : Value.ItemsAreStacks items) :
    familyRoom (Value.itemFamilies items) ≤ room (Data.shownItems (Value.toDataItems items)) := by
  cases items with
  | nil => exact le_rfl
  | cons item rest =>
      have hitem := familyRoom_families_le item hstack.1
      have hrest := familyRoom_itemFamilies_le rest hstack.2
      rw [Value.itemFamilies, familyRoom_append, Value.toDataItems, Data.shownItems, room_cons]
      omega
termination_by structural items

end

/-! ## Flat stacks -/

/-- A stack that is written as one family takes up more room than its families, and some room
in any case. -/
theorem familyRoom_families_lt {items : List Value} (hstack : (Value.list items).IsStack) :
    familyRoom (Value.list items).families < (familyName (Value.list items).inline).length + 2 ∧
      2 ≤ (familyName (Value.list items).inline).length := by
  have hitems := familyRoom_itemFamilies_le items hstack
  have hshown := room_le_length_shown items
  have hname := (length_familyName (Value.list items).inline).1
  have hinline : (Value.list items).inline = (Value.list items).toData.shown := rfl
  rw [hinline] at hname ⊢
  rw [Value.families]
  omega

theorem familyRoom_item_le {item : Value} (hstack : item.IsStack) :
    familyRoom item.families ≤ (familyName item.inline).length + 2 := by
  cases item with
  | text name => exact le_rfl
  | list items => exact (familyRoom_families_lt hstack).1.le
  | _ => cases hstack

theorem exists_list_of_isStack {item : Value} (hstack : item.IsStack)
    (htext : item.isText = false) : ∃ items, item = .list items := by
  cases item with
  | text name => cases htext
  | list items => exact ⟨items, rfl⟩
  | _ => cases hstack

theorem familyRoom_flatMap (f : Value → List String) (items : List Value) :
    familyRoom (items.flatMap f) = (items.map fun item => familyRoom (f item)).sum := by
  induction items with
  | nil => rfl
  | cons item rest ih =>
      rw [List.flatMap_cons, familyRoom_append, ih, List.map_cons, List.sum_cons]

theorem flatMap_families_of_isText {items : List Value}
    (htexts : ∀ item ∈ items, item.isText = true) :
    items.flatMap Value.families = items.map Value.inline := by
  induction items with
  | nil => rfl
  | cons item rest ih =>
      rw [List.forall_mem_cons] at htexts
      rw [List.flatMap_cons, List.map_cons, ih htexts.2]
      cases item with
      | text name => rfl
      | _ => cases htexts.1

theorem familyRoom_map_inline (items : List Value) :
    familyRoom (items.map Value.inline) =
      (items.map fun item => (familyName item.inline).length + 2).sum := by
  rw [familyRoom, room, List.map_map, List.map_map]
  rfl

/-- A stack is longer than its families if one of its items is a stack itself. -/
theorem length_flat_lt {items : List Value} (hstack : ∀ item ∈ items, item.IsStack)
    {names : List Value} (hnames : .list names ∈ items) :
    (fontStack (items.flatMap Value.families)).length <
      (fontStack (items.map Value.inline)).length := by
  obtain ⟨hfamilies, hsome⟩ := familyRoom_families_lt (hstack _ hnames)
  have hless : familyRoom (items.flatMap Value.families) <
      familyRoom (items.map Value.inline) := by
    rw [familyRoom_flatMap, familyRoom_map_inline]
    apply List.sum_lt_sum
    · exact fun item hitem => familyRoom_item_le (hstack item hitem)
    · exact ⟨.list names, hnames, hfamilies⟩
  have hone : (familyName (Value.list names).inline).length + 2 ≤
      familyRoom (items.map Value.inline) := by
    rw [familyRoom_map_inline]
    exact List.le_sum_of_mem (List.mem_map_of_mem hnames)
  -- The room counts one separator too many, so a stack needs some room to have a length.
  rw [length_fontStack, length_fontStack]
  omega

/-- A stack is written as its families in a flat stack exactly if all its items are families. -/
theorem fontStack_eq_iff {items : List Value} (hstack : ∀ item ∈ items, item.IsStack) :
    fontStack (items.map Value.inline) = fontStack (items.flatMap Value.families) ↔
      ∀ item ∈ items, item.isText = true := by
  constructor
  · intro hsame item hitem
    by_contra htext
    obtain ⟨names, rfl⟩ := exists_list_of_isStack (hstack item hitem) (by simpa using htext)
    have hless := length_flat_lt hstack hitem
    rw [hsame] at hless
    exact lt_irrefl _ hless
  · intro htexts
    rw [flatMap_families_of_isText htexts]

/-! ## Tokens -/

variable {dictionary : Dictionary}

/-- A name without references, or an alias of a font stack. -/
def IsStackItem (dictionary : Dictionary) (original : Value) : Prop :=
  original.isText = true ∧ (original.references = [] ∨
    ∃ reference, original.alias? = some reference ∧
      ∀ target, dictionary.get? (Reference.path reference) = some target →
        target.type = some "fontFamily" ∧ target.value.IsStack)

/-- The token at a reference holds several families. -/
def NamesList (dictionary : Dictionary) (original : Value) : Prop :=
  ∃ reference target families, original.alias? = some reference ∧
    dictionary.get? (Reference.path reference) = some target ∧ target.value = .list families

theorem isText_iff_of_isStackItem {original resolved : Value}
    (hitem : IsStackItem dictionary original)
    (hreplaced : original.Replaced (Resolution.valueAt? dictionary.tokens) resolved) :
    resolved.IsStack ∧ (resolved.isText = true ↔ ¬ NamesList dictionary original) := by
  obtain ⟨htext, hplain | ⟨reference, halias, htarget⟩⟩ := hitem
  · rw [hreplaced.eq_self original hplain]
    have hnone : ¬ NamesList dictionary original := by
      rintro ⟨reference, target, families, halias, -⟩
      rw [Value.alias?_eq_none_of_references hplain] at halias
      cases halias
    cases original with
    | text name => exact ⟨trivial, iff_of_true rfl hnone⟩
    | _ => cases htext
  · obtain ⟨target, hfound, rfl⟩ := Dictionary.exists_target_of_alias? halias hreplaced
    have hstack := (htarget target hfound).2
    refine ⟨hstack, ?_⟩
    constructor
    · rintro hfamily ⟨other, found, families, hother, hsame, hlist⟩
      obtain rfl := Option.some.inj (halias.symm.trans hother)
      obtain rfl := Option.some.inj (hfound.symm.trans hsame)
      rw [hlist] at hfamily
      cases hfamily
    · intro hsingle
      by_contra hfamily
      obtain ⟨families, hlist⟩ := exists_list_of_isStack hstack (by simpa using hfamily)
      exact hsingle ⟨reference, target, families, halias, hfound, hlist⟩

/-- Without references the families of a font stack are written one after another, with what
stands for an alias as one family. That is the flat stack of all families exactly if no alias
names a token with a list. -/
theorem value_of_fontStack (hloaded : Loading.IsLoaded dictionary) {token : Token}
    (htoken : token ∈ dictionary.tokens) (htype : token.type = some "fontFamily")
    {originals : List Value} (horiginal : token.original = .list originals)
    (hitems : ∀ original ∈ originals, IsStackItem dictionary original) {options : RenderOptions}
    (hoff : options.policy = .always false) :
    ∃ items, token.value = .list items ∧
      (options.value token dictionary).result = .ok (fontStack (items.map Value.inline)) ∧
      (fontStack (items.map Value.inline) = fontStack token.value.families ↔
        ∀ original ∈ originals, ¬ NamesList dictionary original) := by
  have hreplaced := (hloaded.replaced htoken).2
  rw [horiginal] at hreplaced
  obtain ⟨items, hvalue, hpaired⟩ := hreplaced
  rw [Value.itemsReplaced_iff] at hpaired
  refine ⟨items, hvalue, ?_, ?_⟩
  · rw [RenderOptions.value_of_policy_off hoff, htype, hvalue, literalText, if_pos (.inl rfl)]
    rfl
  · have hstack : ∀ item ∈ items, item.IsStack := by
      intro item hitem
      obtain ⟨original, hmem, hitemReplaced⟩ := Paired.exists_of_mem_right hpaired hitem
      exact (isText_iff_of_isStackItem (hitems original hmem) hitemReplaced).1
    rw [hvalue, Value.families_list, fontStack_eq_iff hstack]
    constructor
    · intro htexts original hmem
      obtain ⟨item, hitem, hitemReplaced⟩ := Paired.exists_of_mem_left hpaired hmem
      exact (isText_iff_of_isStackItem (hitems original hmem) hitemReplaced).2.1 (htexts item hitem)
    · intro hsingle item hitem
      obtain ⟨original, hmem, hitemReplaced⟩ := Paired.exists_of_mem_right hpaired hitem
      exact (isText_iff_of_isStackItem (hitems original hmem) hitemReplaced).2.2
        (hsingle original hmem)

/-- A stack, a family, and two stacks that take them in. -/
def fonts : Object :=
  [("$type", .text "fontFamily"),
    ("sans", .object [("$value", .list [.text "Helvetica Neue", .text "Arial"])]),
    ("serif", .object [("$value", .text "Noto Serif")]),
    ("body", .object [("$value", .list [.text "\x7bsans\x7d", .text "serif"])]),
    ("quote", .object [("$value", .list [.text "\x7bserif\x7d", .text "serif"])])]

def sansStack : Value := .list [.text "Helvetica Neue", .text "Arial"]

def bodyFont : Token :=
  ⟨["body"], "body", some "fontFamily", .list [sansStack, .text "serif"],
    .list [.text "\x7bsans\x7d", .text "serif"], none, none, [], none⟩

def quoteFont : Token :=
  ⟨["quote"], "quote", some "fontFamily", .list [.text "Noto Serif", .text "serif"],
    .list [.text "\x7bserif\x7d", .text "serif"], none, none, [], none⟩

def fontTokens : Dictionary where
  tokens := [⟨["sans"], "sans", some "fontFamily", sansStack, sansStack, none, none, [], none⟩,
    ⟨["serif"], "serif", some "fontFamily", .text "Noto Serif", .text "Noto Serif", none, none, [],
      none⟩, bodyFont, quoteFont]
  nodup_paths := by decide

def fontsAuthored : List Authored :=
  [⟨["sans"], .text "fontFamily", sansStack, [], .null, none⟩,
    ⟨["serif"], .text "fontFamily", .text "Noto Serif", [], .null, none⟩,
    ⟨["body"], .text "fontFamily", bodyFont.original, [], .null, none⟩,
    ⟨["quote"], .text "fontFamily", quoteFont.original, [], .null, none⟩]

theorem isLoaded_fonts : Loading.IsLoaded fontTokens := by
  have hunique : (Value.object fonts).UniqueKeys := by
    simp [fonts, Value.UniqueKeys, Value.EntriesUnique, Value.ItemsUnique, Entries.keys]
  have hauthored : Loading.tokensOf (Tree.Keys.of true) fonts = .ok fontsAuthored := rfl
  have hresolved : Resolution.resolve fontsAuthored none = .ok fontTokens.tokens := by cbv
  exact .of_resolve hunique hauthored hresolved

theorem isStackItem_quote :
    ∀ original ∈ [Value.text "\x7bserif\x7d", .text "serif"], IsStackItem fontTokens original := by
  simp only [List.forall_mem_cons]
  refine ⟨⟨rfl, .inr ⟨"serif", rfl, ?_⟩⟩, ⟨rfl, .inl rfl⟩, List.forall_mem_nil _⟩
  rintro target ⟨⟩
  exact ⟨rfl, trivial⟩

theorem not_namesList_quote :
    ∀ original ∈ [Value.text "\x7bserif\x7d", .text "serif"], ¬ NamesList fontTokens original := by
  simp only [List.forall_mem_cons]
  refine ⟨?_, ?_, List.forall_mem_nil _⟩
  · rintro ⟨_, _, families, ⟨⟩, ⟨⟩, ⟨⟩⟩
  · rintro ⟨_, _, families, ⟨⟩, -⟩

theorem value_of_fontStack_quote :
    (∀ original ∈ [Value.text "\x7bserif\x7d", .text "serif"], IsStackItem fontTokens original) ∧
      (RenderOptions.literalOptions.value quoteFont fontTokens).result =
        .ok (fontStack quoteFont.value.families) ∧
      fontStack quoteFont.value.families = "'Noto Serif', serif" := by
  have hmem : quoteFont ∈ fontTokens.tokens := by simp [fontTokens]
  have hoff : RenderOptions.literalOptions.policy = .always false := rfl
  obtain ⟨items, -, htext, hflat⟩ :=
    value_of_fontStack isLoaded_fonts hmem rfl rfl isStackItem_quote hoff
  rw [hflat.2 not_namesList_quote] at htext
  exact ⟨isStackItem_quote, htext, by decide +kernel⟩

theorem isStackItem_body :
    ∀ original ∈ [Value.text "\x7bsans\x7d", .text "serif"], IsStackItem fontTokens original := by
  simp only [List.forall_mem_cons]
  refine ⟨⟨rfl, .inr ⟨"sans", rfl, ?_⟩⟩, ⟨rfl, .inl rfl⟩, List.forall_mem_nil _⟩
  rintro target ⟨⟩
  exact ⟨rfl, trivial, trivial, trivial⟩

/-- A stack inside a stack is not taken apart. -/
theorem not_value_of_body :
    ¬ ∀ (dictionary : Dictionary) (token : Token) (originals : List Value)
        (options : RenderOptions),
      Loading.IsLoaded dictionary → token ∈ dictionary.tokens → token.type = some "fontFamily" →
        token.original = .list originals →
          (∀ original ∈ originals, IsStackItem dictionary original) →
            options.policy = .always false →
              (options.value token dictionary).result = .ok (fontStack token.value.families) := by
  intro hall
  have hmem : bodyFont ∈ fontTokens.tokens := by simp [fontTokens]
  have hwritten : (RenderOptions.literalOptions.value bodyFont fontTokens).result =
      .ok (fontStack ["['Helvetica Neue', 'Arial']", "serif"]) := rfl
  have hclaimed := hall fontTokens bodyFont _ RenderOptions.literalOptions isLoaded_fonts hmem rfl
    rfl isStackItem_body rfl
  have hsame := Except.ok.inj (hwritten.symm.trans hclaimed)
  exact absurd hsame (by decide +kernel)

end DesignTokens.Stylesheet
