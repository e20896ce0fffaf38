import DesignTokens.Files.Loading
import DesignTokens.Proofs.Tree.Leaves

/-!
# Two spellings of one tree

A tree of the community format can be spelled with the older keys. There the special keys
are names like any other, so that every member of a group is looked at as if it were a group
or a token. Where no group or token has one of these names already, the two spellings load
the same: the extensions of a group are gone before the tokens are read, and a type or a
comment is no group.
-/

namespace DesignTokens.Tree

/-- All special keys of a convention. -/
def Keys.names (keys : Keys) : List String :=
  [keys.value, keys.type, keys.extensions, keys.description]

/-- The older name of a special key; every other name stays. -/
def olderName (name : String) : String :=
  if name = Keys.dtcg.value then Keys.legacy.value
  else if name = Keys.dtcg.type then Keys.legacy.type
  else if name = Keys.dtcg.extensions then Keys.legacy.extensions
  else if name = Keys.dtcg.description then Keys.legacy.description
  else name

/-- The entries of a token with the older keys. -/
def olderEntries (entries : Object) : Object :=
  entries.map fun entry => (olderName entry.1, entry.2)

mutual

/-- A group or a token with the older keys, at and below it. The value of a token stays. -/
def olderMember : Value → Value
  | .object entries =>
    if Entries.contains entries Keys.dtcg.value then .object (olderEntries entries)
    else .object (olderMembers entries)
  | value => value
termination_by structural value => value

/-- The members of a group with the older keys. -/
def olderMembers : List (String × Value) → Object
  | [] => []
  | (name, value) :: rest =>
    (olderName name, if isReserved name then value else olderMember value) :: olderMembers rest
termination_by structural entries => entries

end

/-- None of the members has the name of an older key. -/
def FreeOfOlder (entries : Object) : Prop :=
  ∀ name ∈ Keys.legacy.names, name ∉ Entries.keys entries

mutual

/-- No group or token, at or below the member, has a member with the name of an older key,
and no type or description of a group is an object. The extensions can be anything. -/
def MemberRenamable : Value → Prop
  | .object entries =>
    FreeOfOlder entries ∧
      (Entries.contains entries Keys.dtcg.value = false → MembersRenamable entries)
  | _ => True
termination_by structural value => value

def MembersRenamable : List (String × Value) → Prop
  | [] => True
  | (name, value) :: rest =>
    (if isReserved name then
        name = Keys.dtcg.type ∨ name = Keys.dtcg.description → value.isObject = false
      else MemberRenamable value) ∧
      MembersRenamable rest
termination_by structural entries => entries

end

/-! ## Names -/

variable {name key : String} {entries : Object}

theorem olderName_of_not_mem (hname : name ∉ Keys.dtcg.names) : olderName name = name := by
  simp only [Keys.names, List.mem_cons, List.not_mem_nil, or_false, not_or] at hname
  rw [olderName, if_neg hname.1, if_neg hname.2.1, if_neg hname.2.2.1, if_neg hname.2.2.2]

theorem isReserved_of_mem (hkey : key ∈ Keys.dtcg.names) : isReserved key = true := by
  have hall : ∀ key ∈ Keys.dtcg.names, isReserved key = true := by decide
  exact hall key hkey

theorem olderName_of_not_isReserved (hname : isReserved name = false) : olderName name = name := by
  apply olderName_of_not_mem
  intro hmem
  rw [isReserved_of_mem hmem] at hname
  cases hname

theorem olderName_mem (hkey : key ∈ Keys.dtcg.names) : olderName key ∈ Keys.legacy.names := by
  have hall : ∀ key ∈ Keys.dtcg.names, olderName key ∈ Keys.legacy.names := by decide
  exact hall key hkey

/-- Among free names only the key itself gets the older name. -/
theorem olderName_eq_iff (hkey : key ∈ Keys.dtcg.names) (hname : name ≠ olderName key) :
    olderName name = olderName key ↔ name = key := by
  have hinj : ∀ first ∈ Keys.dtcg.names, ∀ second ∈ Keys.dtcg.names,
      olderName first = olderName second → first = second := by decide
  constructor
  · intro hsame
    by_cases hmem : name ∈ Keys.dtcg.names
    · exact hinj name hmem key hkey hsame
    · rw [olderName_of_not_mem hmem] at hsame
      exact absurd hsame hname
  · rintro rfl
    rfl

theorem FreeOfOlder.not_mem (hfree : FreeOfOlder entries) (hkey : key ∈ Keys.dtcg.names) :
    olderName key ∉ Entries.keys entries :=
  hfree _ (olderName_mem hkey)

theorem FreeOfOlder.tail {entry : String × Value} (hfree : FreeOfOlder (entry :: entries)) :
    FreeOfOlder entries :=
  fun name hname hmem => hfree name hname (List.mem_cons_of_mem _ hmem)

/-! ## Entries -/

/-- A special key is found under its older name. -/
theorem get?_map_olderName {g : String × Value → Value}
    (hg : ∀ entry, isReserved entry.1 = true → g entry = entry.2)
    (hkey : key ∈ Keys.dtcg.names) (hfree : olderName key ∉ Entries.keys entries) :
    Entries.get? (entries.map fun entry => (olderName entry.1, g entry)) (olderName key) =
      Entries.get? entries key := by
  induction entries with
  | nil => rfl
  | cons entry rest ih =>
      obtain ⟨name, value⟩ := entry
      rw [Entries.keys, List.map_cons, List.mem_cons, not_or] at hfree
      have hsame := olderName_eq_iff hkey (Ne.symm hfree.1)
      rw [List.map_cons, Entries.get?_cons, Entries.get?_cons, ih hfree.2]
      by_cases hname : name = key
      · subst hname
        simp [hg (name, value) (isReserved_of_mem hkey)]
      · simp [hname, hsame]

theorem olderMembers_eq_map (entries : Object) :
    olderMembers entries = entries.map fun entry =>
      (olderName entry.1, if isReserved entry.1 then entry.2 else olderMember entry.2) := by
  induction entries with
  | nil => rfl
  | cons entry rest ih => rw [olderMembers, ih, List.map_cons]

/-- The special keys have the same values, each under its name. -/
def SameSpecial (older entries : Object) : Prop :=
  ∀ key ∈ Keys.dtcg.names, Entries.get? older (olderName key) = Entries.get? entries key

theorem sameSpecial_olderMembers (hfree : FreeOfOlder entries) :
    SameSpecial (olderMembers entries) entries := by
  intro key hkey
  rw [olderMembers_eq_map]
  exact get?_map_olderName (fun _ hreserved => if_pos hreserved) hkey (hfree.not_mem hkey)

theorem sameSpecial_olderEntries (hfree : FreeOfOlder entries) :
    SameSpecial (olderEntries entries) entries := by
  intro key hkey
  exact get?_map_olderName (fun _ _ => rfl) hkey (hfree.not_mem hkey)

namespace SameSpecial

variable {older : Object} (hsame : SameSpecial older entries)

include hsame

theorem get?_value : Entries.get? older Keys.legacy.value = Entries.get? entries Keys.dtcg.value :=
  hsame Keys.dtcg.value (by decide)

theorem get?_type : Entries.get? older Keys.legacy.type = Entries.get? entries Keys.dtcg.type :=
  hsame Keys.dtcg.type (by decide)

theorem get?_extensions :
    Entries.get? older Keys.legacy.extensions = Entries.get? entries Keys.dtcg.extensions :=
  hsame Keys.dtcg.extensions (by decide)

theorem get?_description :
    Entries.get? older Keys.legacy.description = Entries.get? entries Keys.dtcg.description :=
  hsame Keys.dtcg.description (by decide)

theorem contains_value :
    Entries.contains older Keys.legacy.value = Entries.contains entries Keys.dtcg.value :=
  congrArg Option.isSome hsame.get?_value

theorem typeBelow_eq (inherited : Value) :
    typeBelow .legacy older inherited = typeBelow .dtcg entries inherited :=
  congrArg (Option.getD · inherited) hsame.get?_type

theorem extensionsBelow_eq (inherited : Object) :
    extensionsBelow .legacy older inherited = extensionsBelow .dtcg entries inherited := by
  rw [extensionsBelow, extensionsBelow, hsame.get?_extensions]

theorem authoredToken_eq (path : TokenPath) (value : Value) :
    authoredToken .legacy path older value = authoredToken .dtcg path entries value := by
  rw [authoredToken, authoredToken, hsame.get?_type, hsame.get?_extensions, hsame.get?_description]

end SameSpecial

theorem insert_olderEntries (hkey : key ∈ Keys.dtcg.names) (hfree : FreeOfOlder entries)
    (value : Value) :
    Entries.insert (olderEntries entries) (olderName key) value =
      olderEntries (Entries.insert entries key value) := by
  induction entries with
  | nil => rfl
  | cons entry rest ih =>
      have hnew : entry.1 ≠ olderName key := fun hsame =>
        hfree.not_mem hkey (hsame ▸ List.mem_cons_self)
      have hsame := olderName_eq_iff hkey hnew
      by_cases hname : entry.1 = key
      · simp [olderEntries, Entries.insert, hname]
      · have hrest := ih hfree.tail
        rw [olderEntries] at hrest
        simp [olderEntries, Entries.insert, hname, hsame, hrest]

theorem FreeOfOlder.insert (hfree : FreeOfOlder entries) (hkey : key ∈ Keys.dtcg.names)
    (value : Value) : FreeOfOlder (Entries.insert entries key value) := by
  have hapart : ∀ key ∈ Keys.dtcg.names, key ∉ Keys.legacy.names := by decide
  intro name hname hmem
  rcases (Entries.mem_keys_insert entries key value name).1 hmem with rfl | hold
  · exact hapart name hkey hname
  · exact hfree name hname hold

/-! ## Tokens -/

theorem type_mem_names : Keys.dtcg.type ∈ Keys.dtcg.names := by
  decide

theorem extensions_mem_names : Keys.dtcg.extensions ∈ Keys.dtcg.names := by
  decide

theorem FreeOfOlder.settle (hfree : FreeOfOlder entries) (type : Value) (extensions : Object) :
    FreeOfOlder (settle .dtcg entries type extensions) := by
  unfold Tree.settle
  extract_lets typed
  have htyped : FreeOfOlder typed := by
    cases type <;> first
      | exact hfree
      | exact hfree.insert type_mem_names _
  split
  · exact htyped
  · exact htyped.insert extensions_mem_names _

/-- What is handed to a token is written under the older keys. -/
theorem settle_olderEntries (hfree : FreeOfOlder entries) (type : Value) (extensions : Object) :
    settle .legacy (olderEntries entries) type extensions =
      olderEntries (settle .dtcg entries type extensions) := by
  have hinsert : ∀ type, Entries.insert (olderEntries entries) Keys.legacy.type type =
      olderEntries (Entries.insert entries Keys.dtcg.type type) :=
    insert_olderEntries type_mem_names hfree
  unfold settle
  extract_lets older typed
  have holder : older = olderEntries typed ∧ FreeOfOlder typed := by
    cases type <;> first
      | exact ⟨rfl, hfree⟩
      | exact ⟨hinsert _, hfree.insert type_mem_names _⟩
  rw [holder.1]
  by_cases hnone : extensions.isEmpty
  · rw [if_pos hnone, if_pos hnone]
  · rw [if_neg hnone, if_neg hnone]
    exact insert_olderEntries extensions_mem_names holder.2 _

/-! ## Groups -/

variable {keys : Keys} (path : TokenPath) (type : Value) (extensions : Object)

/-- Members from which no token is read: handed-down extensions, reserved names and all that
is no object. -/
theorem authored_delegateMembers_of_skipped {value : Value} {rest : Object}
    (hskipped : (name = keys.extensions ∧ value.isObject = true) ∨ isReserved name = true ∨
      value.isObject = false) :
    authored keys path (delegateMembers keys type extensions ((name, value) :: rest)) =
      authored keys path (delegateMembers keys type extensions rest) := by
  rw [delegateMembers]
  by_cases hlost : name = keys.extensions ∧ value.isObject = true
  · rw [if_pos hlost]
  · rw [if_neg hlost]
    by_cases hname : isReserved name = true
    · rw [if_pos hname, authored, if_pos hname]
    · rw [if_neg hname, authored, if_neg hname]
      have hleaf : value.isObject = false := (hskipped.resolve_left hlost).resolve_left hname
      have hnone : authoredMember keys (path ++ [name])
          (delegateMember keys type extensions value) = .ok [] := by
        cases value <;> first
          | rfl
          | simp [Value.isObject, Value.object?] at hleaf
      rw [hnone]
      change (authored keys path _ >>= fun others => pure ([] ++ others)) = _
      simp

theorem authored_delegateMembers_cons {value : Value} {rest : Object}
    (hname : isReserved name = false) (hext : name ≠ keys.extensions) :
    authored keys path (delegateMembers keys type extensions ((name, value) :: rest)) = do
      let first ← authoredMember keys (path ++ [name]) (delegateMember keys type extensions value)
      let others ← authored keys path (delegateMembers keys type extensions rest)
      return first ++ others := by
  have hstays : ¬ (name = keys.extensions ∧ value.isObject = true) := fun hlost => hext hlost.1
  rw [delegateMembers, if_neg hstays, hname, if_neg Bool.false_ne_true, authored, hname,
    if_neg Bool.false_ne_true]

/-- A special key of a group is skipped under its older name as well. -/
theorem skipped_olderName {value : Value} (hvalue : name ≠ Keys.dtcg.value)
    (hreserved : isReserved name = true)
    (hplain : name = Keys.dtcg.type ∨ name = Keys.dtcg.description → value.isObject = false) :
    (olderName name = Keys.legacy.extensions ∧ value.isObject = true) ∨
      isReserved (olderName name) = true ∨ value.isObject = false := by
  by_cases hmem : name ∈ Keys.dtcg.names
  · simp only [Keys.names, List.mem_cons, List.not_mem_nil, or_false] at hmem
    rcases hmem with rfl | rfl | rfl | rfl
    · exact absurd rfl hvalue
    · exact .inr (.inr (hplain (.inl rfl)))
    · cases hobject : value.isObject with
      | true => exact .inl ⟨by decide, rfl⟩
      | false => exact .inr (.inr rfl)
    · exact .inr (.inr (hplain (.inr rfl)))
  · rw [olderName_of_not_mem hmem]
    exact .inr (.inl hreserved)

/-- A token is the same in both spellings. -/
theorem authoredMember_olderEntries (hfree : FreeOfOlder entries)
    (htoken : Entries.contains entries Keys.dtcg.value = true) :
    authoredMember .legacy path (.object (settle .legacy (olderEntries entries) type extensions)) =
      authoredMember .dtcg path (.object (settle .dtcg entries type extensions)) := by
  have hsame := sameSpecial_olderEntries (hfree.settle type extensions)
  have hcontains :=
    (contains_settle (Keys.apart_of true) entries type extensions).trans htoken
  obtain ⟨value, hvalue⟩ := Option.isSome_iff_exists.1 hcontains
  have hsettled : Entries.get? (settle .dtcg entries type extensions) Keys.dtcg.value =
      some value := hvalue
  rw [settle_olderEntries hfree, authoredMember, authoredMember, hsame.get?_value, hsettled]
  dsimp only
  rw [hsame.authoredToken_eq]

theorem authoredMember_delegated {entries : Object}
    (hgroup : Entries.contains entries keys.value = false) :
    authoredMember keys path (.object (delegateMembers keys type extensions entries)) =
      authored keys path (delegateMembers keys type extensions entries) := by
  have hnone := contains_delegateMembers hgroup type extensions
  rw [Entries.contains, Option.isSome_eq_false_iff, Option.isNone_iff_eq_none] at hnone
  rw [authoredMember, hnone]

mutual

theorem authoredMember_olderMember (path : TokenPath) (type : Value) (extensions : Object)
    (value : Value) (hrenamable : MemberRenamable value) :
    authoredMember .legacy path (delegateMember .legacy type extensions (olderMember value)) =
      authoredMember .dtcg path (delegateMember .dtcg type extensions value) := by
  cases value with
  | object entries =>
      obtain ⟨hfree, hmembers⟩ := hrenamable
      rw [olderMember]
      cases htoken : Entries.contains entries Keys.dtcg.value with
      | true =>
          have hsame := sameSpecial_olderEntries hfree
          rw [if_pos rfl, delegateMember, delegateMember, hsame.contains_value, hsame.typeBelow_eq,
            hsame.extensionsBelow_eq, htoken, if_pos rfl, if_pos rfl]
          exact authoredMember_olderEntries path _ _ hfree htoken
      | false =>
          have hsame := sameSpecial_olderMembers hfree
          have holder : Entries.contains (olderMembers entries) Keys.legacy.value = false :=
            hsame.contains_value.trans htoken
          rw [if_neg Bool.false_ne_true, delegateMember, delegateMember, hsame.typeBelow_eq,
            hsame.extensionsBelow_eq, holder, htoken, if_neg Bool.false_ne_true,
            if_neg Bool.false_ne_true, authoredMember_delegated path _ _ holder,
            authoredMember_delegated path _ _ htoken]
          exact authored_olderMembers path _ _ entries hfree htoken (hmembers htoken)
  | _ => rfl
termination_by structural value

/-- A group has the same tokens in both spellings. -/
theorem authored_olderMembers (path : TokenPath) (type : Value) (extensions : Object)
    (entries : List (String × Value)) (hfree : FreeOfOlder entries)
    (hgroup : Entries.contains entries Keys.dtcg.value = false)
    (hrenamable : MembersRenamable entries) :
    authored .legacy path (delegateMembers .legacy type extensions (olderMembers entries)) =
      authored .dtcg path (delegateMembers .dtcg type extensions entries) := by
  cases entries with
  | nil => rfl
  | cons entry rest =>
      obtain ⟨name, value⟩ := entry
      obtain ⟨hmember, hrest⟩ := hrenamable
      rw [Entries.contains_cons, Bool.or_eq_false_iff, beq_eq_false_iff_ne] at hgroup
      have hlater := authored_olderMembers path type extensions rest hfree.tail hgroup.2 hrest
      rw [olderMembers]
      cases hreserved : isReserved name with
      | true =>
          rw [hreserved, if_pos rfl] at hmember
          rw [if_pos rfl, authored_delegateMembers_of_skipped path type extensions
              (skipped_olderName hgroup.1 hreserved hmember),
            authored_delegateMembers_of_skipped path type extensions (.inr (.inl hreserved))]
          exact hlater
      | false =>
          rw [hreserved, if_neg Bool.false_ne_true] at hmember
          have hlegacy : name ≠ Keys.legacy.extensions := by
            rintro rfl
            exact hfree Keys.legacy.extensions (by decide) List.mem_cons_self
          have hdtcg : name ≠ Keys.dtcg.extensions := by
            rintro rfl
            exact absurd hreserved (by decide)
          rw [if_neg Bool.false_ne_true, olderName_of_not_isReserved hreserved,
            authored_delegateMembers_cons path type extensions hreserved hlegacy,
            authored_delegateMembers_cons path type extensions hreserved hdtcg, hlater,
            authoredMember_olderMember _ type extensions value hmember]
termination_by structural entries

end

/-! ## Whole trees -/

theorem tokensOf_olderMembers {tree : Object}
    (hroot : Entries.contains tree Keys.dtcg.value = false)
    (hrenamable : MemberRenamable (.object tree)) :
    Loading.tokensOf .legacy (olderMembers tree) = Loading.tokensOf .dtcg tree := by
  obtain ⟨hfree, hmembers⟩ := hrenamable
  have hsame := sameSpecial_olderMembers hfree
  rw [Loading.tokensOf, Loading.tokensOf, delegate, delegate, hsame.contains_value,
    hsame.typeBelow_eq, hsame.extensionsBelow_eq, hroot, if_neg Bool.false_ne_true,
    if_neg Bool.false_ne_true]
  exact authored_olderMembers [] _ _ tree hfree hroot (hmembers hroot)

/-- A tree of the community format and the same tree with the older keys load the same
dictionary, or fail with the same error. The root must not be a token, no group or token may
have a member with the name of an older key, and no type or description of a group may be an
object. -/
theorem dictionaryOfTree_olderMembers {tree : Object}
    (hroot : Entries.contains tree Keys.dtcg.value = false)
    (hrenamable : MemberRenamable (.object tree)) (lead : Option String) :
    Loading.dictionaryOfTree (olderMembers tree) false lead =
      Loading.dictionaryOfTree tree true lead := by
  have htokens : Loading.tokensOf (Keys.of false) (olderMembers tree) =
      Loading.tokensOf (Keys.of true) tree := tokensOf_olderMembers hroot hrenamable
  rw [Loading.dictionaryOfTree, Loading.dictionaryOfTree, htokens]

/-- A group with a type and extensions, and a token in it with all special keys. -/
def palette : Object :=
  [("color", .object [
    ("$type", .text "color"),
    ("$extensions", .object [("mode", .text "light")]),
    ("ink", .object [("$value", .text "#111"), ("$description", .text "Text"),
      ("$extensions", .object [("level", .int 1)])])])]

theorem memberRenamable_palette : MemberRenamable (.object palette) := by
  have hfree : ∀ {names : List String} {entries : Object}, Entries.keys entries = names →
      (∀ name ∈ Keys.legacy.names, name ∉ names) → FreeOfOlder entries := by
    rintro _ entries rfl hfree
    exact hfree
  have hextensions :
      ¬ ("$extensions" = Keys.dtcg.type ∨ "$extensions" = Keys.dtcg.description) := by
    decide
  refine ⟨hfree rfl (by decide), fun _ => ⟨⟨hfree rfl (by decide), fun _ => ?_⟩, trivial⟩⟩
  refine ⟨fun _ => rfl, fun hkey => absurd hkey hextensions, ?_, trivial⟩
  exact ⟨hfree rfl (by decide), fun hgroup => absurd hgroup (by decide)⟩

theorem dictionaryOfTree_olderMembers_palette :
    olderMembers palette = [("color", .object [
      ("type", .text "color"),
      ("extensions", .object [("mode", .text "light")]),
      ("ink", .object [("value", .text "#111"), ("comment", .text "Text"),
        ("extensions", .object [("level", .int 1)])])])] ∧
      Loading.dictionaryOfTree (olderMembers palette) false none =
        Loading.dictionaryOfTree palette true none :=
  ⟨rfl, dictionaryOfTree_olderMembers rfl memberRenamable_palette none⟩

end DesignTokens.Tree
