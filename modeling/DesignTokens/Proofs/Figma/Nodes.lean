import DesignTokens.Proofs.Figma.Pruned

/-!
# The nodes of a pruned tree

A tree is listed node by node, each group before what stands below it. The list of the pruned
tree is that of the tree with every node pruned, so no leaf is lost, changed or moved past
another one. If there are groups and leaves only, a group is dropped exactly if it has no leaf,
at any depth. So no such group is left, and pruning once more changes nothing.
-/

namespace DesignTokens.Figma

open DesignTokens.Tree DesignTokens.Value

mutual

/-- What stands at and below a member of a group, with the steps to it. A leaf is one node,
whatever its value holds. -/
def memberNodes (keys : Keys) : Value → List (TokenPath × Value)
  | .object entries =>
    if Entries.contains entries keys.value then [([], .object entries)]
    else ([], .object entries) :: nodes keys entries
  | value => [([], value)]
termination_by structural value => value

/-- What stands below a group, in document order. -/
def nodes (keys : Keys) : List (String × Value) → List (TokenPath × Value)
  | [] => []
  | (name, value) :: rest =>
    (memberNodes keys value).map (fun node => (name :: node.1, node.2)) ++ nodes keys rest
termination_by structural entries => entries

end

/-- The leaves below a group with their paths, in document order. -/
def leavesBelow (keys : Keys) (group : Object) : List (TokenPath × Value) :=
  (nodes keys group).filter fun node => isLeaf keys node.2

/-- Groups without a leaf at any depth. -/
def isBarren (keys : Keys) : Value → Bool
  | .object group => !Entries.contains group keys.value && (leavesBelow keys group).isEmpty
  | _ => false

/-- The tree consists of leaves and groups. -/
def IsDocument (keys : Keys) (tree : Object) : Prop :=
  ∀ node ∈ nodes keys tree, node.2.isObject = true
deriving Decidable

variable {keys : Keys} {tree entries group : Object} {value kept : Value} {path : TokenPath}

theorem memberNodes_of_isLeaf (hleaf : Entries.contains entries keys.value = true) :
    memberNodes keys (.object entries) = [([], .object entries)] := by
  rw [memberNodes, if_pos hleaf]

theorem memberNodes_group (hgroup : Entries.contains entries keys.value = false) :
    memberNodes keys (.object entries) = ([], .object entries) :: nodes keys entries := by
  rw [memberNodes, hgroup, if_neg Bool.false_ne_true]

mutual

theorem memberNodes_pruneMember (value : Value) :
    (pruneMember keys value).elim [] (memberNodes keys) =
      Entries.collect (pruneMember keys) (memberNodes keys value) := by
  cases value with
  | object entries =>
      cases hgroup : Entries.contains entries keys.value with
      | true =>
          have hkept := pruneMember_of_isLeaf (isLeaf_object.trans hgroup)
          rw [memberNodes_of_isLeaf hgroup, Entries.collect, List.filterMap_cons]
          simp only [hkept]
          exact memberNodes_of_isLeaf hgroup
      | false =>
          rw [memberNodes_group hgroup, Entries.collect, List.filterMap_cons, ← Entries.collect,
            ← nodes_prune entries, pruneMember_group hgroup]
          split
          · next hempty =>
              -- Nothing below the group is left, so there is nothing to be listed.
              rw [List.isEmpty_iff.1 hempty]
              rfl
          · exact memberNodes_group (contains_prune hgroup)
  | _ => rfl
termination_by structural value

/-- The nodes of the pruned tree are the pruned nodes of the tree. -/
theorem nodes_prune (entries : List (String × Value)) :
    nodes keys (prune keys entries) =
      Entries.collect (pruneMember keys) (nodes keys entries) := by
  cases entries with
  | nil => rfl
  | cons entry rest =>
      obtain ⟨name, value⟩ := entry
      have hmember := memberNodes_pruneMember value
      rw [prune, nodes, Entries.collect_append, ← nodes_prune rest, Entries.collect_map,
        ← hmember]
      cases pruneMember keys value <;> rfl
termination_by structural entries

end

/-! ## Leaves -/

/-- A member that is kept stays as it is, or it is a group and is pruned itself. -/
theorem eq_or_group_of_pruneMember (hkept : pruneMember keys value = some kept) :
    kept = value ∨ ∃ group, value = .object group ∧
      Entries.contains group keys.value = false ∧ kept = .object (prune keys group) := by
  cases value with
  | object group =>
      cases hgroup : Entries.contains group keys.value with
      | true =>
          rw [pruneMember_of_isLeaf (isLeaf_object.trans hgroup)] at hkept
          exact .inl (Option.some.inj hkept).symm
      | false =>
          rw [pruneMember_group hgroup] at hkept
          split at hkept
          · cases hkept
          · exact .inr ⟨group, rfl, hgroup, (Option.some.inj hkept).symm⟩
  | _ => exact .inl (Option.some.inj hkept).symm

theorem isLeaf_of_pruneMember (hkept : pruneMember keys value = some kept) :
    isLeaf keys kept = isLeaf keys value := by
  rcases eq_or_group_of_pruneMember hkept with rfl | ⟨group, rfl, hgroup, rfl⟩
  · rfl
  · rw [isLeaf_object, isLeaf_object, contains_prune hgroup, hgroup]

theorem leavesBelow_prune (tree : Object) :
    leavesBelow keys (prune keys tree) = leavesBelow keys tree := by
  rw [leavesBelow, nodes_prune]
  exact Entries.filter_collect (fun _ => pruneMember_of_isLeaf) (fun _ _ => isLeaf_of_pruneMember)
    (nodes keys tree)

theorem isBarren_of_pruneMember (hkept : pruneMember keys value = some kept) :
    isBarren keys kept = isBarren keys value := by
  rcases eq_or_group_of_pruneMember hkept with rfl | ⟨group, rfl, hgroup, rfl⟩
  · rfl
  · rw [isBarren, isBarren, leavesBelow_prune, contains_prune hgroup, hgroup]

/-! ## Groups that are dropped -/

theorem pruneMember_group_eq_none_iff (hgroup : Entries.contains entries keys.value = false) :
    pruneMember keys (.object entries) = none ↔ prune keys entries = [] := by
  rw [pruneMember_group hgroup]
  cases prune keys entries <;> simp

/-- Objects without a value key. -/
def IsGroup (keys : Keys) (value : Value) : Prop :=
  value.isObject = true ∧ isLeaf keys value = false

mutual

theorem pruneMember_eq_none_iff (value : Value) :
    pruneMember keys value = none ↔ ∀ node ∈ memberNodes keys value, IsGroup keys node.2 := by
  cases value with
  | object entries =>
      cases hgroup : Entries.contains entries keys.value with
      | true =>
          have hleaf : isLeaf keys (.object entries) = true := hgroup
          rw [pruneMember_of_isLeaf hleaf, memberNodes_of_isLeaf hgroup, List.forall_mem_singleton]
          simp [IsGroup, hleaf]
      | false =>
          have hhere : IsGroup keys (.object entries) := ⟨rfl, hgroup⟩
          rw [pruneMember_group_eq_none_iff hgroup, memberNodes_group hgroup, List.forall_mem_cons,
            prune_eq_nil_iff entries, and_iff_right hhere]
  | _ => simp [pruneMember, memberNodes, IsGroup, Value.isObject, Value.object?]
termination_by structural value

/-- Everything is dropped if there are groups only. -/
theorem prune_eq_nil_iff (entries : List (String × Value)) :
    prune keys entries = [] ↔ ∀ node ∈ nodes keys entries, IsGroup keys node.2 := by
  cases entries with
  | nil => simp [prune, nodes]
  | cons entry rest =>
      obtain ⟨name, value⟩ := entry
      rw [prune, nodes, List.forall_mem_append, List.forall_mem_map, ← prune_eq_nil_iff rest,
        ← pruneMember_eq_none_iff value]
      cases pruneMember keys value <;> simp
termination_by structural entries

end

mutual

theorem mem_memberNodes_append (value : Value) {path : TokenPath}
    (hmem : (path, .object group) ∈ memberNodes keys value)
    (hgroup : Entries.contains group keys.value = false) {node : TokenPath × Value}
    (hnode : node ∈ nodes keys group) : (path ++ node.1, node.2) ∈ memberNodes keys value := by
  cases value with
  | object entries =>
      rw [memberNodes] at hmem ⊢
      split at hmem
      · next hleaf =>
          cases List.mem_singleton.1 hmem
          rw [hleaf] at hgroup
          cases hgroup
      · next hopen =>
          rw [if_neg hopen]
          rcases List.mem_cons.1 hmem with hhere | hbelow
          · cases hhere
            exact List.mem_cons_of_mem _ hnode
          · exact List.mem_cons_of_mem _ (mem_nodes_append entries hbelow hgroup hnode)
  | _ => simp [memberNodes] at hmem
termination_by structural value

/-- What stands below a group of a tree stands in the tree. -/
theorem mem_nodes_append (entries : List (String × Value)) {path : TokenPath}
    (hmem : (path, .object group) ∈ nodes keys entries)
    (hgroup : Entries.contains group keys.value = false) {node : TokenPath × Value}
    (hnode : node ∈ nodes keys group) : (path ++ node.1, node.2) ∈ nodes keys entries := by
  cases entries with
  | nil => cases hmem
  | cons entry rest =>
      obtain ⟨name, value⟩ := entry
      rw [nodes, List.mem_append] at hmem ⊢
      rcases hmem with hhere | hlater
      · obtain ⟨⟨steps, found⟩, hfound, hsame⟩ := List.mem_map.1 hhere
        obtain ⟨rfl, rfl⟩ := Prod.mk.inj hsame
        exact .inl (List.mem_map.2 ⟨_, mem_memberNodes_append value hfound hgroup hnode, rfl⟩)
      · exact .inr (mem_nodes_append rest hlater hgroup hnode)
termination_by structural entries

end

/-- In a tree of groups and leaves the groups without a leaf are dropped, and only these. -/
theorem pruneMember_eq_none_iff_isBarren (hdocument : IsDocument keys tree)
    (hmem : (path, value) ∈ nodes keys tree) :
    pruneMember keys value = none ↔ isBarren keys value = true := by
  obtain ⟨entries, rfl⟩ := eq_object_of_isObject (hdocument _ hmem)
  cases hgroup : Entries.contains entries keys.value with
  | true =>
      rw [pruneMember_of_isLeaf (isLeaf_object.trans hgroup)]
      simp [isBarren, hgroup]
  | false =>
      have hobjects : IsDocument keys entries := fun node hnode =>
        hdocument (path ++ node.1, node.2) (mem_nodes_append tree hmem hgroup hnode)
      have hempty : prune keys entries = [] ↔ leavesBelow keys entries = [] := by
        rw [prune_eq_nil_iff, leavesBelow, List.filter_eq_nil_iff]
        refine forall₂_congr fun node hnode => ?_
        rw [IsGroup, Bool.not_eq_true]
        exact and_iff_right (hobjects node hnode)
      rw [pruneMember_group_eq_none_iff hgroup, hempty, isBarren, hgroup, Bool.not_false,
        Bool.true_and, List.isEmpty_iff]

theorem keys_nodes_prune (hdocument : IsDocument keys tree) :
    Entries.keys (nodes keys (prune keys tree)) =
      Entries.keys ((nodes keys tree).filter fun node => !isBarren keys node.2) := by
  rw [nodes_prune, Entries.keys_collect]
  congr 1
  apply List.filter_congr
  rintro ⟨path, value⟩ hmem
  have hdropped := pruneMember_eq_none_iff_isBarren hdocument hmem
  cases hvalue : pruneMember keys value with
  | none => simp [hdropped.1 hvalue]
  | some kept => simpa [hvalue] using hdropped

theorem isBarren_eq_false_of_mem_nodes_prune (hdocument : IsDocument keys tree)
    {node : TokenPath × Value} (hmem : node ∈ nodes keys (prune keys tree)) :
    isBarren keys node.2 = false := by
  rw [nodes_prune] at hmem
  obtain ⟨⟨path, value⟩, hvalue, hnode⟩ := List.mem_filterMap.1 hmem
  obtain ⟨kept, hkept, rfl⟩ := Option.map_eq_some_iff.1 hnode
  -- What is left of a group has the leaves of the group, and one without leaves is not left.
  rw [isBarren_of_pruneMember hkept, ← Bool.not_eq_true,
    ← pruneMember_eq_none_iff_isBarren hdocument hvalue, hkept]
  exact Option.some_ne_none kept

/-! ## Pruning twice -/

mutual

theorem pruneMember_bind_self (value : Value) :
    (pruneMember keys value).bind (pruneMember keys) = pruneMember keys value := by
  cases value with
  | object entries =>
      cases hgroup : Entries.contains entries keys.value with
      | true =>
          have hkept := pruneMember_of_isLeaf (isLeaf_object.trans hgroup)
          rw [hkept, Option.bind_some, hkept]
      | false =>
          rw [pruneMember_group hgroup]
          split
          · rfl
          · next hkept =>
              rw [Option.bind_some, pruneMember_group (contains_prune hgroup), prune_prune entries,
                if_neg hkept]
  | _ => rfl
termination_by structural value

theorem prune_prune (entries : List (String × Value)) :
    prune keys (prune keys entries) = prune keys entries := by
  cases entries with
  | nil => rfl
  | cons entry rest =>
      obtain ⟨name, value⟩ := entry
      have hagain := pruneMember_bind_self value
      rw [prune]
      cases hvalue : pruneMember keys value with
      | none => exact prune_prune rest
      | some kept =>
          rw [hvalue, Option.bind_some] at hagain
          rw [prune, hagain, prune_prune rest]
termination_by structural entries

end

/-- Of a tree of groups and leaves pruning drops the groups without a leaf and nothing else. The
leaves stay as they are, at their paths and in their order. -/
theorem prune_drops_barren (hdocument : IsDocument keys tree) :
    leavesBelow keys (prune keys tree) = leavesBelow keys tree ∧
      Entries.keys (nodes keys (prune keys tree)) =
        Entries.keys ((nodes keys tree).filter fun node => !isBarren keys node.2) ∧
      (∀ node ∈ nodes keys (prune keys tree), isBarren keys node.2 = false) ∧
      prune keys (prune keys tree) = prune keys tree := by
  refine ⟨leavesBelow_prune tree, keys_nodes_prune hdocument, ?_, prune_prune tree⟩
  intro node hmem
  exact isBarren_eq_false_of_mem_nodes_prune hdocument hmem

/-- Groups that hold nothing but groups beside leaves, one of which has an empty value. -/
def sparseTree : Object :=
  [("color", .object [("old", .object [("light", .object [])]), ("dark", .object [])]),
    ("text", .object [("styles", .object []),
      ("body", .object [("default", .object [("$value", .object [])])])]),
    ("ink", .object [("$value", .object [("inner", .object [])])])]

theorem prune_drops_barren_sparseTree : IsDocument .dtcg sparseTree ∧
    leavesBelow .dtcg (prune .dtcg sparseTree) = leavesBelow .dtcg sparseTree ∧
    Entries.keys (nodes .dtcg (prune .dtcg sparseTree)) =
      Entries.keys ((nodes .dtcg sparseTree).filter fun node => !isBarren .dtcg node.2) ∧
    (∀ node ∈ nodes .dtcg (prune .dtcg sparseTree), isBarren .dtcg node.2 = false) ∧
    prune .dtcg (prune .dtcg sparseTree) = prune .dtcg sparseTree :=
  have hdocument : IsDocument .dtcg sparseTree := by decide
  ⟨hdocument, prune_drops_barren hdocument⟩

example : prune .dtcg sparseTree =
    [("text", .object [("body", .object [("default", .object [("$value", .object [])])])]),
      ("ink", .object [("$value", .object [("inner", .object [])])])] := rfl

end DesignTokens.Figma
