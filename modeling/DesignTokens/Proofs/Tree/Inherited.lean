import Mathlib.Data.List.Infix
import DesignTokens.Proofs.Traced
import DesignTokens.Proofs.Tree.Overlaid

/-!
# What a token inherits

A token stands at the end of a way: the root, the groups in which it lies, and the token
itself. Handing group properties down gives it the type of the nearest object of the way
that has one and the extensions of them all, the nearer entry winning. Nothing else that is
read from the tree changes.
-/

namespace DesignTokens.Tree

variable {keys : Keys} {tree : Object}

/-- The objects on the way to a path, from the root on. -/
def nodesTo (tree : Object) (path : TokenPath) : List Object :=
  path.inits.filterMap fun steps => ((Value.object tree).at? steps).bind Value.object?

/-- What the last of the objects that have the key has there. -/
def nearest? (key : String) (nodes : List Object) : Option Value :=
  nodes.reverse.findSome? fun node => Entries.get? node key

/-- The extensions that an object has itself. -/
def ownExtensions (keys : Keys) (node : Object) : Object :=
  ((Entries.get? node keys.extensions).bind Value.object?).getD []

/-- The extensions of several objects in one, those of a later object replacing those of an
earlier one key by key. -/
def mergedExtensions (keys : Keys) (nodes : List Object) : Object :=
  Entries.ofList (nodes.flatMap (ownExtensions keys))

/-- The token with the type and the extensions that hold on its way. -/
def inheriting (keys : Keys) (tree : Object) (token : Authored) : Authored :=
  { token with
    type := (nearest? keys.type (nodesTo tree token.path)).getD .null
    extensions := (mergedExtensions keys (nodesTo tree token.path)).map
      fun (key, value) => (.text key, value) }

/-- On the way to a token, extensions are objects wherever there are some. -/
def ExtensionsAreObjects (keys : Keys) (tree : Object) : Prop :=
  ∀ path, HasLeaf keys tree path → ∀ node ∈ nodesTo tree path, ∀ value,
    Entries.get? node keys.extensions = some value → value.isObject = true

/-! ## The way to a token -/

theorem nodesTo_cons {name : String} {entries : Object} {steps : TokenPath}
    (hmember : Entries.get? tree name = some (.object entries)) :
    nodesTo tree (name :: steps) = tree :: nodesTo entries steps := by
  rw [nodesTo, List.inits_cons, List.filterMap_cons, List.filterMap_map, nodesTo]
  simp only [Function.comp_def, Value.at?_object_cons, hmember, Option.bind_some]
  rfl

theorem mem_leaves_iff {leaf : Leaf} :
    leaf ∈ leaves keys tree ↔ ∃ entry ∈ tree, isReserved entry.1 = false ∧
      ∃ inner ∈ memberLeaves keys entry.2, inner.under entry.1 = leaf := by
  induction tree with
  | nil => simp [leaves]
  | cons entry rest ih =>
      rw [leaves, List.mem_append, ih, List.exists_mem_cons_iff]
      apply or_congr_left
      cases isReserved entry.1 <;> simp

/-- The objects on the way to a leaf are the root, the groups around the leaf, and its own
entries. -/
theorem nodesTo_of_mem_leaves (hunique : (Value.object tree).UniqueKeys) {leaf : Leaf}
    (hleaf : leaf ∈ leaves keys tree) : nodesTo tree leaf.path = tree :: leaf.nodes := by
  induction hpath : leaf.path generalizing tree leaf with
  | nil =>
      obtain ⟨entry, -, -, inner, -, rfl⟩ := mem_leaves_iff.1 hleaf
      cases hpath
  | cons name steps ih =>
      obtain ⟨⟨key, value⟩, hentry, -, inner, hinner, rfl⟩ := mem_leaves_iff.1 hleaf
      obtain ⟨rfl, rfl⟩ : key = name ∧ inner.path = steps := List.cons.inj hpath
      have hmember := Entries.get?_eq_some_of_mem hunique.nodup hentry
      cases value with
      | object entries =>
          rw [nodesTo_cons hmember]
          rw [memberLeaves] at hinner
          split at hinner
          · rw [List.mem_singleton.1 hinner]
            rfl
          · obtain ⟨below, hbelow, rfl⟩ := List.mem_map.1 hinner
            have hunder := ih (hunique.of_get? hmember) hbelow rfl
            exact congrArg (tree :: ·) hunder
      | _ => simp [memberLeaves] at hinner

/-! ## Type and extensions on the way -/

theorem foldl_typeBelow (nodes : List Object) (inherited : Value) :
    nodes.foldl (fun type node => typeBelow keys node type) inherited =
      (nearest? keys.type nodes).getD inherited := by
  induction nodes generalizing inherited with
  | nil => rfl
  | cons node rest ih =>
      rw [List.foldl_cons, ih, nearest?, nearest?, List.reverse_cons, List.findSome?_append,
        List.findSome?_singleton, typeBelow]
      cases rest.reverse.findSome? _ <;> simp

theorem extensionsBelow_eq_update (node inherited : Object) :
    extensionsBelow keys node inherited = Entries.update inherited (ownExtensions keys node) := by
  rw [extensionsBelow, ownExtensions]
  cases Entries.get? node keys.extensions with
  | none => rfl
  | some value => cases value <;> rfl

theorem foldl_extensionsBelow (nodes : List Object) (inherited : Object) :
    nodes.foldl (fun extensions node => extensionsBelow keys node extensions) inherited =
      Entries.update inherited (nodes.flatMap (ownExtensions keys)) := by
  induction nodes generalizing inherited with
  | nil => rfl
  | cons node rest ih =>
      rw [List.foldl_cons, ih, extensionsBelow_eq_update, List.flatMap_cons, Entries.update,
        Entries.update, Entries.update, List.foldl_append]

theorem Leaf.typeFrom_root (leaf : Leaf) (tree : Object) :
    leaf.typeFrom keys (typeBelow keys tree .null) =
      (nearest? keys.type (tree :: leaf.nodes)).getD .null := by
  rw [typeFrom, ← foldl_typeBelow, List.foldl_cons]

theorem Leaf.extensionsFrom_root (leaf : Leaf) (tree : Object) :
    leaf.extensionsFrom keys (extensionsBelow keys tree []) =
      mergedExtensions keys (tree :: leaf.nodes) := by
  rw [mergedExtensions, Entries.ofList, ← foldl_extensionsBelow, List.foldl_cons]
  rfl

theorem nodup_keys_ownExtensions {node : Object} (hunique : (Value.object node).UniqueKeys) :
    (Entries.keys (ownExtensions keys node)).Nodup := by
  rw [ownExtensions]
  cases hvalue : Entries.get? node keys.extensions with
  | none => exact List.nodup_nil
  | some value =>
      cases value with
      | object own => exact (hunique.of_get? hvalue).nodup
      | _ => exact List.nodup_nil

/-- Of several extensions with a key the nearest ones win. -/
theorem get?_mergedExtensions {nodes : List Object}
    (hunique : ∀ node ∈ nodes, (Value.object node).UniqueKeys) (key : String) :
    Entries.get? (mergedExtensions keys nodes) key =
      nearest? key (nodes.map (ownExtensions keys)) := by
  have hlast : ∀ node ∈ nodes.reverse, Entries.last? (ownExtensions keys node) key =
      Entries.get? (ownExtensions keys node) key := fun node hnode =>
    Entries.last?_eq_get? (nodup_keys_ownExtensions (hunique node (List.mem_reverse.1 hnode))) key
  have hfound := congrArg (List.findSome? id) (List.map_congr_left hlast)
  rw [List.findSome?_map, List.findSome?_map] at hfound
  rw [mergedExtensions, Entries.get?_ofList, Entries.last?_flatMap, nearest?, ← List.map_reverse,
    List.findSome?_map]
  exact hfound

/-! ## Reading tokens -/

/-- The token that is read from the content of a leaf whose extensions are an object, if it has
any. -/
def tokenAt (keys : Keys) (content : TokenPath × Object) : Authored where
  path := content.1
  type := (Entries.get? content.2 keys.type).getD .null
  value := (Entries.get? content.2 keys.value).getD .null
  extensions := (ownExtensions keys content.2).map fun (key, value) => (.text key, value)
  description := (Entries.get? content.2 keys.description).getD .null
  source := none

theorem extensionsOf_object (entries : Object) :
    extensionsOf (.object entries) =
      .ok (entries.map fun (key, value) => (Scalar.text key, value)) := by
  cases entries <;> rfl

theorem authoredAt_eq_tokenAt {content : TokenPath × Object}
    (hobject : ∀ value, Entries.get? content.2 keys.extensions = some value →
      value.isObject = true) : authoredAt keys [] content = .ok (tokenAt keys content) := by
  have hextensions : extensionsOf ((Entries.get? content.2 keys.extensions).getD .null) =
      .ok ((ownExtensions keys content.2).map fun (key, value) => (Scalar.text key, value)) := by
    rw [ownExtensions]
    cases hvalue : Entries.get? content.2 keys.extensions with
    | none => rfl
    | some value =>
        obtain ⟨own, rfl⟩ := Value.eq_object_of_isObject (hobject value hvalue)
        exact extensionsOf_object own
  rw [authoredAt, authoredToken, hextensions]
  rfl

/-! ## Handing down -/

theorem ownExtensions_settle (hkeys : keys.Apart) (entries inherited : Object) (type : Value) :
    ownExtensions keys (settle keys entries type (extensionsBelow keys entries inherited)) =
      extensionsBelow keys entries inherited := by
  rw [ownExtensions, get?_settle_extensions hkeys]
  split
  · next hnone =>
      -- Nothing holds on the way, so the token has no extensions either.
      rw [List.isEmpty_iff] at hnone
      rw [hnone, ← ownExtensions]
      rw [extensionsBelow_eq_update] at hnone
      exact (Entries.update_eq_nil_iff.1 hnone).2
  · rfl

theorem Leaf.typeFrom_eq (leaf : Leaf) (inherited : Value) :
    leaf.typeFrom keys inherited = typeBelow keys leaf.entries
      (leaf.groups.foldl (fun type node => typeBelow keys node type) inherited) := by
  rw [typeFrom, nodes, List.foldl_append]
  rfl

theorem Leaf.extensionsFrom_eq (leaf : Leaf) (inherited : Object) :
    leaf.extensionsFrom keys inherited = extensionsBelow keys leaf.entries
      (leaf.groups.foldl (fun extensions node => extensionsBelow keys node extensions)
        inherited) := by
  rw [extensionsFrom, nodes, List.foldl_append]
  rfl

/-- The token that is read from a leaf takes what is handed to the leaf. -/
theorem tokenAt_settled (hkeys : keys.Apart)
    (hdescription : keys.type ≠ keys.description ∧ keys.extensions ≠ keys.description)
    (hunique : (Value.object tree).UniqueKeys) {leaf : Leaf} (hleaf : leaf ∈ leaves keys tree) :
    tokenAt keys (leaf.settled keys (typeBelow keys tree .null) (extensionsBelow keys tree [])) =
      inheriting keys tree (tokenAt keys leaf.content) := by
  have hnodes : nodesTo tree (tokenAt keys leaf.content).path = tree :: leaf.nodes :=
    nodesTo_of_mem_leaves hunique hleaf
  rw [inheriting, hnodes, ← Leaf.typeFrom_root, ← Leaf.extensionsFrom_root]
  simp only [tokenAt, Leaf.settled, Leaf.content, get?_settle hkeys,
    get?_settle_of_ne hdescription.1 hdescription.2]
  rw [Leaf.typeFrom_eq, Leaf.extensionsFrom_eq, getD_type_settle hkeys, ownExtensions_settle hkeys]

/-! ## Whole trees -/

theorem mapM_authoredAt {contents : List (TokenPath × Object)}
    (hobject : ∀ content ∈ contents, ∀ value,
      Entries.get? content.2 keys.extensions = some value → value.isObject = true) :
    contents.mapM (authoredAt keys []) = .ok (contents.map (tokenAt keys)) := by
  rw [Failing.mapM_eq_ok, List.forall₂_map_right_iff, List.forall₂_same]
  exact fun content hcontent => authoredAt_eq_tokenAt (hobject content hcontent)

theorem uniqueKeys_of_mem_nodesTo (hunique : (Value.object tree).UniqueKeys) {path : TokenPath} :
    ∀ node ∈ nodesTo tree path, (Value.object node).UniqueKeys := by
  intro node hnode
  obtain ⟨steps, -, hfound⟩ := List.mem_filterMap.1 hnode
  obtain ⟨value, hvalue, hobject⟩ := Option.bind_eq_some_iff.1 hfound
  cases value with
  | object entries =>
      obtain rfl : entries = node := Option.some.inj hobject
      exact hunique.at? hvalue
  | _ => cases hobject

/-- Handing group properties down keeps all tokens in their order with their paths, values and
descriptions. Each token has the type of the nearest object on its way that has one, and the
extensions of all of them, of which the nearest with a key wins. -/
theorem authored_delegate_inheriting (hunique : (Value.object tree).UniqueKeys)
    (hroot : Entries.contains tree Keys.dtcg.value = false)
    (hextensions : ExtensionsAreObjects .dtcg tree) :
    ∃ tokens, authored .dtcg [] tree = .ok tokens ∧
      authored .dtcg [] (delegate .dtcg tree) = .ok (tokens.map (inheriting .dtcg tree)) ∧
      ∀ token ∈ tokens, ∀ key,
        Entries.get? (mergedExtensions .dtcg (nodesTo tree token.path)) key =
          nearest? key ((nodesTo tree token.path).map (ownExtensions .dtcg)) := by
  have hkeys : Keys.dtcg.Apart := Keys.apart_of true
  have hobject : ∀ leaf ∈ leaves .dtcg tree, ∀ value,
      Entries.get? leaf.entries Keys.dtcg.extensions = some value → value.isObject = true := by
    intro leaf hleaf
    apply hextensions leaf.path (List.mem_map_of_mem hleaf)
    rw [nodesTo_of_mem_leaves hunique hleaf]
    simp [Leaf.nodes]
  have hkept : ∀ leaf ∈ leaves .dtcg tree, leaf.isKept .dtcg = true := by
    intro leaf hleaf
    have hsteps := not_isReserved_of_hasLeaf tree (List.mem_map_of_mem hleaf)
    exact decide_eq_true fun hmem => absurd (hsteps _ hmem) (by decide)
  refine ⟨(leaves .dtcg tree).map fun leaf => tokenAt .dtcg leaf.content, ?_, ?_, ?_⟩
  · have hcontents : ∀ content ∈ (leaves .dtcg tree).map Leaf.content, ∀ value,
        Entries.get? content.2 Keys.dtcg.extensions = some value → value.isObject = true :=
      List.forall_mem_map.2 hobject
    have hread := mapM_authoredAt hcontents
    rw [List.mapM_map, List.map_map] at hread
    rw [authored_eq_mapM]
    exact hread
  · rw [authored_delegate hkeys hunique, contents, hroot, if_neg Bool.false_ne_true,
      List.filter_eq_self.2 hkept, mapM_authoredAt, List.map_map, List.map_map]
    · have hdescription : Keys.dtcg.type ≠ Keys.dtcg.description ∧
          Keys.dtcg.extensions ≠ Keys.dtcg.description := by decide
      exact congrArg Except.ok (List.map_congr_left fun leaf hleaf =>
        tokenAt_settled hkeys hdescription hunique hleaf)
    · rw [List.forall_mem_map]
      intro leaf hleaf value hvalue
      rw [Leaf.settled, get?_settle_extensions hkeys] at hvalue
      split at hvalue
      · exact hobject leaf hleaf value hvalue
      · exact Option.some.inj hvalue ▸ rfl
  · intro token _
    exact get?_mergedExtensions (uniqueKeys_of_mem_nodesTo hunique)

/-- A group with a type and extensions, and in it another one whose type is an explicit
null. -/
def swatches : Object :=
  [("$extensions", .object [("level", .int 0), ("brand", .text "acme")]),
    ("color", .object [
      ("$type", .text "color"),
      ("$extensions", .object [("mode", .text "light"), ("level", .int 1)]),
      ("ink", .object [("$value", .text "#111"), ("$extensions", .object [("level", .int 2)])]),
      ("raw", .object [("$type", .null), ("mark", .object [("$value", .int 3)])])])]

def swatchTokens : List Authored :=
  [⟨["color", "ink"], .null, .text "#111", [(.text "level", .int 2)], .null, none⟩,
    ⟨["color", "raw", "mark"], .null, .int 3, [], .null, none⟩]

def inheritingSwatches : List Authored :=
  [⟨["color", "ink"], .text "color", .text "#111",
      [(.text "level", .int 2), (.text "brand", .text "acme"), (.text "mode", .text "light")],
      .null, none⟩,
    ⟨["color", "raw", "mark"], .null, .int 3,
      [(.text "level", .int 1), (.text "brand", .text "acme"), (.text "mode", .text "light")],
      .null, none⟩]

theorem extensionsAreObjects_swatches : ExtensionsAreObjects .dtcg swatches := by
  have hall : ∀ path ∈ (leaves .dtcg swatches).map Leaf.path, ∀ node ∈ nodesTo swatches path,
      (Entries.get? node Keys.dtcg.extensions).all Value.isObject = true := by decide
  intro path hleaf node hnode value hvalue
  have hobject := hall path hleaf node hnode
  rwa [hvalue] at hobject

theorem authored_delegate_inheriting_swatches :
    Entries.contains swatches Keys.dtcg.value = false ∧ ExtensionsAreObjects .dtcg swatches ∧
      authored .dtcg [] swatches = .ok swatchTokens ∧
      authored .dtcg [] (delegate .dtcg swatches) =
        .ok (swatchTokens.map (inheriting .dtcg swatches)) ∧
      swatchTokens.map (inheriting .dtcg swatches) = inheritingSwatches := by
  have hunique : (Value.object swatches).UniqueKeys := by
    simp [swatches, Value.UniqueKeys, Value.EntriesUnique, Entries.keys]
  have hplain : authored .dtcg [] swatches = .ok swatchTokens := rfl
  obtain ⟨tokens, htokens, hout, -⟩ :=
    authored_delegate_inheriting hunique rfl extensionsAreObjects_swatches
  obtain rfl := Except.ok.inj (hplain.symm.trans htokens)
  exact ⟨rfl, extensionsAreObjects_swatches, hplain, hout, rfl⟩

end DesignTokens.Tree
