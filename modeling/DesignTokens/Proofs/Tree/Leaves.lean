import DesignTokens.Proofs.Value.UniqueKeys
import DesignTokens.Tree.Authored
import DesignTokens.Tree.Delegation

/-!
# The leaves of a token tree

A leaf is a token as it stands in a tree: the steps to it, the groups that were passed on
the way, and its own entries. The authored tokens are read off the leaves one by one, and
handing group properties down changes a leaf in one way: its entries take the type and
the extensions that hold along the way. Groups named like the extensions key are lost,
as the key is when it has been handed down.
-/

namespace DesignTokens.Tree

structure Leaf where
  path : TokenPath
  /-- The groups on the way, outermost first; the one at which the way starts is not among
  them. -/
  groups : List Object
  entries : Object

namespace Leaf

/-- The leaf with one more step in front. -/
def under (name : String) (leaf : Leaf) : Leaf :=
  { leaf with path := name :: leaf.path }

/-- The leaf with one more group around it. -/
def within (group : Object) (leaf : Leaf) : Leaf :=
  { leaf with groups := group :: leaf.groups }

/-- What the tokens are read from. -/
def content (leaf : Leaf) : TokenPath × Object :=
  (leaf.path, leaf.entries)

/-- The groups on the way, and the token itself. -/
def nodes (leaf : Leaf) : List Object :=
  leaf.groups ++ [leaf.entries]

/-- The type that holds for the leaf, if `inherited` holds around it. -/
def typeFrom (keys : Keys) (inherited : Value) (leaf : Leaf) : Value :=
  leaf.nodes.foldl (fun type node => typeBelow keys node type) inherited

/-- The extensions that hold for the leaf, if `inherited` hold around it. -/
def extensionsFrom (keys : Keys) (inherited : Object) (leaf : Leaf) : Object :=
  leaf.nodes.foldl (fun extensions node => extensionsBelow keys node extensions) inherited

/-- The content of the leaf after type and extensions were handed to it. -/
def settled (keys : Keys) (type : Value) (extensions : Object) (leaf : Leaf) :
    TokenPath × Object :=
  (leaf.path,
    settle keys leaf.entries (leaf.typeFrom keys type) (leaf.extensionsFrom keys extensions))

/-- The leaf is still there after group properties were handed down. -/
def isKept (keys : Keys) (leaf : Leaf) : Bool :=
  decide (keys.extensions ∉ leaf.path)

end Leaf

mutual

/-- The leaves at and below a member of a group. -/
def memberLeaves (keys : Keys) : Value → List Leaf
  | .object entries =>
    if Entries.contains entries keys.value then [⟨[], [], entries⟩]
    else (leaves keys entries).map (Leaf.within entries)
  | _ => []
termination_by structural value => value

/-- The leaves below a group, in document order. -/
def leaves (keys : Keys) : List (String × Value) → List Leaf
  | [] => []
  | (name, value) :: rest =>
    (if isReserved name then [] else (memberLeaves keys value).map (Leaf.under name)) ++
      leaves keys rest
termination_by structural entries => entries

end

variable {keys : Keys}

theorem memberLeaves_of_not_object {value : Value} (hvalue : value.isObject = false) :
    memberLeaves keys value = [] := by
  cases value <;> first
    | rfl
    | simp [Value.isObject, Value.object?] at hvalue

/-! ## Tokens are read off the leaves -/

/-- The token that is read from the content of a leaf below `path`. -/
def authoredAt (keys : Keys) (path : TokenPath) (content : TokenPath × Object) :
    Except Error Authored :=
  authoredToken keys (path ++ content.1) content.2
    ((Entries.get? content.2 keys.value).getD .null)

theorem authoredAt_comp_under (path : TokenPath) (name : String) :
    (fun leaf : Leaf => authoredAt keys path leaf.content) ∘ Leaf.under name =
      fun leaf => authoredAt keys (path ++ [name]) leaf.content := by
  funext leaf
  simp [authoredAt, Leaf.content, Leaf.under]

mutual

theorem authoredMember_eq_mapM (path : TokenPath) (value : Value) :
    authoredMember keys path value =
      (memberLeaves keys value).mapM fun leaf => authoredAt keys path leaf.content := by
  cases value with
  | object entries =>
      rw [authoredMember, memberLeaves]
      cases hvalue : Entries.get? entries keys.value with
      | some value => simp [Entries.contains, hvalue, authoredAt, Leaf.content]
      | none =>
          simp only [Entries.contains, hvalue, Option.isSome_none, Bool.false_eq_true, if_false]
          rw [authored_eq_mapM path entries, List.mapM_map]
          rfl
  | _ => rfl
termination_by structural value

/-- The tokens of a tree are those of its leaves. -/
theorem authored_eq_mapM (path : TokenPath) (entries : List (String × Value)) :
    authored keys path entries =
      (leaves keys entries).mapM fun leaf => authoredAt keys path leaf.content := by
  cases entries with
  | nil => rfl
  | cons entry rest =>
      obtain ⟨name, value⟩ := entry
      rw [authored, leaves, List.mapM_append, authored_eq_mapM path rest]
      by_cases hname : isReserved name
      · simp [hname]
      · simp only [hname, Bool.false_eq_true, if_false]
        rw [authoredMember_eq_mapM (path ++ [name]) value, List.mapM_map, authoredAt_comp_under]
termination_by structural entries

end

/-! ## Group properties are handed to the leaves -/

/-- The keys that delegation writes are not the one that makes a token. -/
structure Keys.Apart (keys : Keys) : Prop where
  type_ne_value : keys.type ≠ keys.value
  extensions_ne_value : keys.extensions ≠ keys.value
  type_ne_extensions : keys.type ≠ keys.extensions

theorem Keys.apart_of (dtcg : Bool) : (Keys.of dtcg).Apart := by
  cases dtcg <;> exact ⟨by decide, by decide, by decide⟩

theorem get?_settle_of_ne {key : String} (htype : keys.type ≠ key)
    (hextensions : keys.extensions ≠ key) (entries : Object) (type : Value)
    (extensions : Object) :
    Entries.get? (settle keys entries type extensions) key = Entries.get? entries key := by
  unfold settle
  extract_lets typed
  have htyped : Entries.get? typed key = Entries.get? entries key := by
    cases type <;> simp [typed, Entries.get?_insert, htype]
  split
  · exact htyped
  · rw [Entries.get?_insert, if_neg (by simpa using hextensions), htyped]

theorem get?_settle (hkeys : keys.Apart) (entries : Object) (type : Value)
    (extensions : Object) :
    Entries.get? (settle keys entries type extensions) keys.value =
      Entries.get? entries keys.value :=
  get?_settle_of_ne hkeys.type_ne_value hkeys.extensions_ne_value entries type extensions

/-- A token keeps its extensions, objects or not, if there are none to be handed to it. -/
theorem get?_settle_extensions (hkeys : keys.Apart) (entries : Object) (type : Value)
    (extensions : Object) :
    Entries.get? (settle keys entries type extensions) keys.extensions =
      if extensions.isEmpty then Entries.get? entries keys.extensions
      else some (.object extensions) := by
  unfold settle
  extract_lets typed
  split
  · cases type <;> simp [typed, Entries.get?_insert, hkeys.type_ne_extensions]
  · rw [Entries.get?_insert, if_pos (beq_self_eq_true _)]

/-- An explicit null and no type at all are the same for a token. -/
theorem getD_type_settle (hkeys : keys.Apart) (entries extensions : Object) (inherited : Value) :
    (Entries.get? (settle keys entries (typeBelow keys entries inherited) extensions)
      keys.type).getD .null = typeBelow keys entries inherited := by
  unfold settle
  extract_lets typed
  have htyped : (Entries.get? typed keys.type).getD .null = typeBelow keys entries inherited := by
    cases htype : typeBelow keys entries inherited with
    | null =>
        have hsame : typed = entries := by simp [typed, htype]
        rw [typeBelow] at htype
        rw [hsame]
        cases hown : Entries.get? entries keys.type with
        | none => rfl
        | some own => simpa [hown] using htype
    | _ => simp [typed, htype, Entries.get?_insert]
  split
  · exact htyped
  · rw [Entries.get?_insert, if_neg (by simpa using hkeys.type_ne_extensions.symm), htyped]

theorem contains_settle (hkeys : keys.Apart) (entries : Object) (type : Value)
    (extensions : Object) :
    Entries.contains (settle keys entries type extensions) keys.value =
      Entries.contains entries keys.value := by
  rw [Entries.contains, get?_settle hkeys, Entries.contains]

theorem keys_delegateMembers_sublist (type : Value) (extensions entries : Object) :
    (Entries.keys (delegateMembers keys type extensions entries)).Sublist
      (Entries.keys entries) := by
  induction entries with
  | nil => exact List.Sublist.refl _
  | cons entry rest ih =>
      rw [delegateMembers]
      split
      · exact ih.cons _
      split
      · exact ih.cons_cons _
      · exact ih.cons_cons _

theorem contains_delegateMembers {entries : Object}
    (hgroup : Entries.contains entries keys.value = false) (type : Value) (extensions : Object) :
    Entries.contains (delegateMembers keys type extensions entries) keys.value = false := by
  rw [Entries.contains, Option.isSome_eq_false_iff, Option.isNone_iff_eq_none,
    Entries.get?_eq_none_iff] at hgroup ⊢
  exact fun hmem => hgroup ((keys_delegateMembers_sublist type extensions entries).subset hmem)

namespace Leaf

theorem content_comp_under (name : String) :
    content ∘ under name = (fun content => (name :: content.1, content.2)) ∘ content := rfl

theorem settled_comp_under (type : Value) (extensions : Object) (name : String) :
    settled keys type extensions ∘ under name =
      (fun content => (name :: content.1, content.2)) ∘ settled keys type extensions := rfl

theorem settled_comp_within (type : Value) (extensions group : Object) :
    settled keys type extensions ∘ within group =
      settled keys (typeBelow keys group type) (extensionsBelow keys group extensions) := rfl

theorem isKept_comp_under {name : String} (hname : name ≠ keys.extensions) :
    isKept keys ∘ under name = isKept keys := by
  funext leaf
  simp [isKept, under, Ne.symm hname]

theorem filter_isKept_map_under_extensions (found : List Leaf) :
    (found.map (under keys.extensions)).filter (isKept keys) = [] := by
  simp [isKept, under]

end Leaf

mutual

theorem content_memberLeaves_delegateMember (hkeys : keys.Apart) (type : Value)
    (extensions : Object) (value : Value) :
    (memberLeaves keys (delegateMember keys type extensions value)).map Leaf.content =
      ((memberLeaves keys value).filter (Leaf.isKept keys)).map
        (Leaf.settled keys type extensions) := by
  cases value with
  | object entries =>
      rw [delegateMember, memberLeaves]
      cases htoken : Entries.contains entries keys.value with
      | true =>
          rw [if_pos rfl, if_pos rfl, memberLeaves, contains_settle hkeys, htoken, if_pos rfl]
          rfl
      | false =>
          rw [if_neg Bool.false_ne_true, if_neg Bool.false_ne_true, memberLeaves,
            contains_delegateMembers htoken, if_neg Bool.false_ne_true, List.filter_map,
            List.map_map, List.map_map, Leaf.settled_comp_within]
          exact content_leaves_delegateMembers hkeys _ _ entries
  | _ => rfl
termination_by structural value

/-- The leaves after delegation are those before it, each with what holds for it. -/
theorem content_leaves_delegateMembers (hkeys : keys.Apart) (type : Value)
    (extensions : Object) (entries : List (String × Value)) :
    (leaves keys (delegateMembers keys type extensions entries)).map Leaf.content =
      ((leaves keys entries).filter (Leaf.isKept keys)).map
        (Leaf.settled keys type extensions) := by
  cases entries with
  | nil => rfl
  | cons entry rest =>
      obtain ⟨name, value⟩ := entry
      have hrest := content_leaves_delegateMembers hkeys type extensions rest
      rw [delegateMembers, leaves, List.filter_append, List.map_append, ← hrest]
      split
      · next hlost =>
          -- The group is gone, and no leaf below it was to be kept.
          rw [hlost.1, apply_ite (List.filter _), Leaf.filter_isKept_map_under_extensions]
          simp
      · next hstays =>
          by_cases hname : isReserved name
          · simp [hname, leaves]
          · simp only [hname, Bool.false_eq_true, if_false, leaves, List.map_append]
            congr 1
            rw [List.map_map, Leaf.content_comp_under, ← List.map_map,
              content_memberLeaves_delegateMember hkeys type extensions value, List.map_map,
              ← Leaf.settled_comp_under, ← List.map_map]
            by_cases hext : name = keys.extensions
            · have hleaf : value.isObject = false := by simpa [hext] using hstays
              rw [memberLeaves_of_not_object hleaf]
              rfl
            · rw [List.filter_map, Leaf.isKept_comp_under hext]
termination_by structural entries

end

/-! ## A whole tree -/

/-- A token keeps its entries if it has all that holds for it. -/
theorem settle_eq_self {entries extensions : Object} {type : Value}
    (htype : type = .null ∨ Entries.get? entries keys.type = some type)
    (hextensions : extensions = [] ∨
      Entries.get? entries keys.extensions = some (.object extensions)) :
    settle keys entries type extensions = entries := by
  unfold settle
  extract_lets typed
  have htyped : typed = entries := by
    rcases htype with rfl | htype
    · rfl
    · have hinsert := Entries.insert_of_get?_eq_some htype
      cases type <;> first
        | rfl
        | exact hinsert
  rw [htyped]
  rcases hextensions with rfl | hextensions
  · rfl
  · split
    · rfl
    · exact Entries.insert_of_get?_eq_some hextensions

/-- What holds for the root is what it has. -/
theorem settle_root {tree : Object} (hunique : (Value.object tree).UniqueKeys) :
    settle keys tree (typeBelow keys tree .null) (extensionsBelow keys tree []) = tree := by
  apply settle_eq_self
  · rw [typeBelow]
    cases Entries.get? tree keys.type with
    | none => exact .inl rfl
    | some type => exact .inr rfl
  · rw [extensionsBelow]
    split
    · next own hown =>
        rw [hown, show Entries.update [] own = own from
          Entries.ofList_eq_self (hunique.of_get? hown).nodup]
        exact .inr rfl
    · exact .inl rfl

/-- The contents from which the tokens of a whole tree are read. Nothing is handed down if
the root itself has a value key. -/
def contents (keys : Keys) (tree : Object) : List (TokenPath × Object) :=
  if Entries.contains tree keys.value then
    (leaves keys tree).map Leaf.content
  else
    ((leaves keys tree).filter (Leaf.isKept keys)).map
      (Leaf.settled keys (typeBelow keys tree .null) (extensionsBelow keys tree []))

theorem map_content_leaves_delegate (hkeys : keys.Apart) {tree : Object}
    (hunique : (Value.object tree).UniqueKeys) :
    (leaves keys (delegate keys tree)).map Leaf.content = contents keys tree := by
  rw [delegate, contents]
  cases Entries.contains tree keys.value with
  | true => rw [if_pos rfl, if_pos rfl, settle_root hunique]
  | false => exact content_leaves_delegateMembers hkeys _ _ tree

theorem authored_delegate (hkeys : keys.Apart) {tree : Object}
    (hunique : (Value.object tree).UniqueKeys) :
    authored keys [] (delegate keys tree) = (contents keys tree).mapM (authoredAt keys []) := by
  rw [authored_eq_mapM, ← map_content_leaves_delegate hkeys hunique, List.mapM_map]
  rfl

end DesignTokens.Tree
