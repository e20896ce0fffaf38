import DesignTokens.Proofs.Figma.Italics

/-!
# Modified styles

Of the text styles the groups with a default are kept, each with the default combined with
every modifier. This fails for a group whose default is no object only.
-/

namespace DesignTokens.Figma

open DesignTokens.Tree DesignTokens.Value

variable {keys : Keys} {tree text : Object} {found : List (String × Object)} {node : Value}
  {path : List String}

/-- A group with a default that is no object. -/
def IsBroken (keys : Keys) (node : Value) : Prop :=
  ∃ group default, node = .object group ∧ Entries.contains group keys.value = false ∧
    Entries.get? group Token.defaultVariant = some default ∧ default.isObject = false

/-- A style group with what comes of its default and the modifiers. -/
def combinedGroup (keys : Keys) (found : List (String × Object)) (group default : Object) :
    Object :=
  match Entries.get? default keys.value with
  | some (.object base) =>
    Entries.update group (found.map fun entry =>
      (entry.1, leaf keys (some "typography") (.object (modify base entry.1 entry.2))))
  | _ => group

/-- What stands in the place of a member of the styles: a group with a default combined with
the modifiers, and nothing in that of anything else. -/
def combined? (keys : Keys) (found : List (String × Object)) : Value → Option Value
  | .object group =>
    if Entries.contains group keys.value then none
    else
      match Entries.get? group Token.defaultVariant with
      | some (.object default) => some (.object (combinedGroup keys found group default))
      | _ => none
  | _ => none

theorem combine_object (found : List (String × Object)) (group default : Object) :
    combine keys found group (.object default) = .ok (combinedGroup keys found group default) := by
  cases hvalue : Entries.get? default keys.value with
  | none => simp only [combine, combinedGroup, hvalue]
  | some value => cases value <;> simp only [combine, combinedGroup, hvalue]

/-- The styles can be combined exactly if no group has a default that is no object. -/
theorem combinations_eq_ok_iff {groups : Object} : combinations keys text = .ok groups ↔
    (∀ entry ∈ text, ¬ IsBroken keys entry.2) ∧
      Entries.collect (combined? keys (modifiers keys text)) text = groups := by
  have hwhole : (∀ entry ∈ text, ¬ IsBroken keys entry.2) → combinations keys text =
      .ok (Entries.collect (combined? keys (modifiers keys text)) text) := by
    intro hsound
    rw [combinations]
    dsimp only
    apply Failing.filterMapM_eq_ok_of_forall
    rintro ⟨name, node⟩ hmem
    dsimp only
    cases node with
    | object group =>
        rw [combined?]
        dsimp only
        split
        · rfl
        · next hgroup =>
            cases hdefault : Entries.get? group Token.defaultVariant with
            | none => rfl
            | some default =>
                have hobject : default.isObject = true := by
                  by_contra hplain
                  exact hsound _ hmem ⟨group, default, rfl, by simpa using hgroup, hdefault,
                    by simpa using hplain⟩
                obtain ⟨entries, rfl⟩ := eq_object_of_isObject hobject
                dsimp only
                rw [combine_object]
                rfl
    | _ => rfl
  constructor
  · intro hgroups
    have hsound : ∀ entry ∈ text, ¬ IsBroken keys entry.2 := by
      rintro ⟨name, node⟩ hmem ⟨group, default, hnode, hgroup, hdefault, hplain⟩
      rw [combinations] at hgroups
      obtain ⟨done, hdone⟩ := Failing.exists_of_filterMapM_eq_ok hgroups _ hmem
      dsimp only at hnode hdone
      rw [hnode] at hdone
      dsimp only at hdone
      rw [hgroup, if_neg Bool.false_ne_true, hdefault] at hdone
      cases default with
      | object => cases hplain
      | _ => cases hdone
    exact ⟨hsound, Except.ok.inj ((hwhole hsound).symm.trans hgroups)⟩
  · rintro ⟨hsound, rfl⟩
    exact hwhole hsound

/-- The parts of a node that is a modifier. -/
def modifier? (keys : Keys) (node : Value) : Option Object :=
  match node.member? keys.value with
  | some (.object parts) => if parts.length ≤ 3 then some parts else none
  | _ => none

theorem modifiers_eq_collect (text : Object) :
    modifiers keys text = Entries.collect (modifier? keys) text := by
  rw [modifiers, Entries.collect]
  congr 1
  funext entry
  obtain ⟨name, node⟩ := entry
  dsimp only [modifier?]
  cases node.member? keys.value with
  | none => rfl
  | some value =>
      cases value with
      | object parts =>
          dsimp only
          split <;> rfl
      | _ => rfl

theorem eq_of_modifier? {parts : Object} (hnode : modifier? keys node = some parts) :
    node.member? keys.value = some (.object parts) ∧ parts.length ≤ 3 := by
  rw [modifier?] at hnode
  split at hnode
  · next hvalue =>
      split at hnode
      · next hlength =>
          obtain rfl := Option.some.inj hnode
          exact ⟨hvalue, hlength⟩
      · cases hnode
  · cases hnode

/-! ## No key twice -/

theorem uniqueKeys_italicAlias (value : Value) (hvalue : value.UniqueKeys) :
    (italicAlias value).UniqueKeys := by
  cases value with
  | text s =>
      rw [italicAlias]
      split <;> trivial
  | _ => exact hvalue

theorem uniqueKeys_modify {base modifier : Object} (hbase : (Value.object base).UniqueKeys)
    (hmodifier : (Value.object modifier).UniqueKeys) (name : String) :
    (Value.object (modify base name modifier)).UniqueKeys := by
  rw [modify]
  split
  · rw [italicStyle]
    split
    · next weight hweight =>
        apply UniqueKeys.sublist _ List.filter_sublist
        exact hbase.insert (uniqueKeys_italicAlias weight (hbase.of_get? hweight))
    · exact hbase.sublist List.filter_sublist
  · exact hbase.update fun _ hmem => hmodifier.of_mem hmem

theorem uniqueKeys_combinedGroup {group default : Object}
    (hfound : ∀ entry ∈ found, (Value.object entry.2).UniqueKeys)
    (hgroup : (Value.object group).UniqueKeys) (hdefault : (Value.object default).UniqueKeys) :
    (Value.object (combinedGroup keys found group default)).UniqueKeys := by
  rw [combinedGroup]
  split
  · next base hbase =>
      apply hgroup.update
      intro entry hentry
      obtain ⟨modifier, hmem, rfl⟩ := List.mem_map.1 hentry
      dsimp only
      apply uniqueKeys_leaf
      exact uniqueKeys_modify (hdefault.of_get? hbase) (hfound modifier hmem) modifier.1
  · exact hgroup

theorem uniqueKeys_combined? {combined : Value}
    (hfound : ∀ entry ∈ found, (Value.object entry.2).UniqueKeys) (hnode : node.UniqueKeys)
    (hcombined : combined? keys found node = some combined) : combined.UniqueKeys := by
  cases node with
  | object group =>
      rw [combined?] at hcombined
      split at hcombined
      · cases hcombined
      · split at hcombined
        · next default hdefault =>
            rw [← Option.some.inj hcombined]
            exact uniqueKeys_combinedGroup hfound hnode (hnode.of_get? hdefault)
        · cases hcombined
  | _ => cases hcombined

theorem uniqueKeys_collect {f : Value → Option Value} (htext : (Value.object text).UniqueKeys)
    (hkept : ∀ value kept, value.UniqueKeys → f value = some kept → kept.UniqueKeys) :
    (Value.object (Entries.collect f text)).UniqueKeys := by
  refine uniqueKeys_object_iff.2
    ⟨htext.nodup.sublist (Entries.keys_collect_sublist f text), fun entry hentry => ?_⟩
  obtain ⟨old, hmem, hold⟩ := List.mem_filterMap.1 hentry
  obtain ⟨kept, hvalue, rfl⟩ := Option.map_eq_some_iff.1 hold
  exact hkept old.2 kept (htext.of_mem hmem) hvalue

theorem uniqueKeys_modifiers (htext : (Value.object text).UniqueKeys) :
    ∀ entry ∈ modifiers keys text, (Value.object entry.2).UniqueKeys := by
  intro entry hentry
  rw [modifiers_eq_collect] at hentry
  obtain ⟨old, hmem, hold⟩ := List.mem_filterMap.1 hentry
  obtain ⟨parts, hparts, rfl⟩ := Option.map_eq_some_iff.1 hold
  have hvalue := (eq_of_modifier? hparts).1
  rw [member?_eq_at?] at hvalue
  exact (htext.of_mem hmem).at? hvalue

/-! ## The tree with modified styles -/

theorem at?_textGroup_append {text : Object}
    (htext : innerGroup? tree "typography" "text" = some text) (rest : List String) :
    (Value.object tree).at? (textGroup ++ rest) = (Value.object text).at? rest := by
  rw [at?_append, textGroup, innerGroup?_eq_some_iff.1 htext, Option.bind_some]

/-- A tree with styles has them collected anew, and any other one stays as it is. -/
theorem withCombinations_eq_ok_iff {combined : Object} :
    withCombinations keys tree = .ok combined ↔
      (∃ text, innerGroup? tree "typography" "text" = some text ∧
        (∀ entry ∈ text, ¬ IsBroken keys entry.2) ∧
        replaceInner tree "typography" "text"
          (Entries.collect (combined? keys (modifiers keys text)) text) = combined) ∨
      innerGroup? tree "typography" "text" = none ∧ tree = combined := by
  rw [withCombinations]
  cases innerGroup? tree "typography" "text" with
  | some text =>
      simp only [Failing.map_eq_ok, combinations_eq_ok_iff]
      simp
  | none => simp

/-- The styles are combined exactly if none of them is broken. -/
theorem exists_withCombinations_iff (htree : (Value.object tree).UniqueKeys) :
    (∃ combined, withCombinations keys tree = .ok combined) ↔ ∀ name node,
      (Value.object tree).at? (textGroup ++ [name]) = some node → ¬ IsBroken keys node := by
  simp only [withCombinations_eq_ok_iff]
  cases htext : innerGroup? tree "typography" "text" with
  | some text =>
      have hnodup := (htree.at? (innerGroup?_eq_some_iff.1 htext)).nodup
      have hmember : ∀ name node, (Value.object tree).at? (textGroup ++ [name]) = some node ↔
          (name, node) ∈ text := by
        intro name node
        rw [at?_textGroup_append htext, at?_object_singleton]
        exact ⟨Entries.mem_of_get?_eq_some, Entries.get?_eq_some_of_mem hnodup⟩
      simp [hmember]
  | none =>
      refine iff_of_true ⟨tree, .inr ⟨rfl, rfl⟩⟩ fun name node hnode => ?_
      rw [textGroup, at?_append_of_innerGroup?_eq_none htext] at hnode
      cases hnode

/-- Away from the styles the tree is what it was. -/
theorem at?_of_withCombinations {combined : Object}
    (hcombined : withCombinations keys tree = .ok combined) (houtside : ¬ textGroup <+: path)
    (hbeyond : ¬ path <+: textGroup) :
    (Value.object combined).at? path = (Value.object tree).at? path := by
  obtain ⟨text, -, -, rfl⟩ | ⟨-, rfl⟩ := withCombinations_eq_ok_iff.1 hcombined
  · exact at?_replaceInner_of_not_prefix houtside hbeyond
  · rfl

theorem uniqueKeys_of_withCombinations {combined : Object} (htree : (Value.object tree).UniqueKeys)
    (hcombined : withCombinations keys tree = .ok combined) :
    (Value.object combined).UniqueKeys := by
  obtain ⟨text, htext, -, rfl⟩ | ⟨-, rfl⟩ := withCombinations_eq_ok_iff.1 hcombined
  · have hunique := htree.at? (innerGroup?_eq_some_iff.1 htext)
    apply uniqueKeys_replaceInner htree
    exact uniqueKeys_collect hunique fun _ _ hvalue hkept =>
      uniqueKeys_combined? (uniqueKeys_modifiers hunique) hvalue hkept
  · exact htree

/-- In a group with a default stands the default with each modifier. -/
theorem get?_combinedGroup {group default base modifier : Object} {name : String}
    (hnodup : (Entries.keys found).Nodup)
    (hbase : Entries.get? default keys.value = some (.object base))
    (hmodifier : Entries.get? found name = some modifier) :
    Entries.get? (combinedGroup keys found group default) name =
      some (leaf keys (some "typography") (.object (modify base name modifier))) := by
  have hlast := Entries.last?_map (f := id) Function.injective_id
    (fun entry => leaf keys (some "typography") (.object (modify base entry.1 entry.2))) found name
  rw [Entries.last?_eq_get? hnodup, hmodifier, Option.map_some] at hlast
  simp only [combinedGroup, hbase]
  rw [Entries.get?_update]
  exact congrArg (Option.or · (Entries.get? group name)) hlast

/-- A style whose default has parts stands beside its default with each modifier. -/
theorem at?_of_withCombinations_style {combined group default base modifier : Object}
    {style name : String} (htree : (Value.object tree).UniqueKeys)
    (hcombined : withCombinations keys tree = .ok combined)
    (hgroup : (Value.object tree).at? (textGroup ++ [style]) = some (.object group))
    (hstyle : Entries.contains group keys.value = false)
    (hdefault : Entries.get? group Token.defaultVariant = some (.object default))
    (hbase : Entries.get? default keys.value = some (.object base))
    (hnode : (Value.object tree).at? (textGroup ++ [name]) = some node)
    (hmodifier : modifier? keys node = some modifier) :
    (Value.object combined).at? (textGroup ++ [style, name]) =
      some (leaf keys (some "typography") (.object (modify base name modifier))) := by
  obtain ⟨text, htext, -, rfl⟩ | ⟨hnone, -⟩ := withCombinations_eq_ok_iff.1 hcombined
  · have hunique := htree.at? (innerGroup?_eq_some_iff.1 htext)
    have hmember : ∀ name, (Value.object tree).at? (textGroup ++ [name]) =
        Entries.get? text name := by
      intro name
      rw [at?_textGroup_append htext, at?_object_singleton]
    have hfound : Entries.get? (modifiers keys text) name = some modifier := by
      rw [modifiers_eq_collect, Entries.get?_collect _ hunique.nodup, ← hmember, hnode]
      exact hmodifier
    have hkept : combined? keys (modifiers keys text) (.object group) =
        some (.object (combinedGroup keys (modifiers keys text) group default)) := by
      simp only [combined?, hstyle, hdefault, if_neg Bool.false_ne_true]
    have hnodup : (Entries.keys (modifiers keys text)).Nodup := by
      rw [modifiers_eq_collect]
      exact hunique.nodup.sublist (Entries.keys_collect_sublist _ text)
    rw [textGroup, at?_replaceInner_append htext, at?_object_cons,
      Entries.get?_collect _ hunique.nodup, ← hmember, hgroup, Option.bind_some, hkept,
      Option.bind_some, at?_object_cons, get?_combinedGroup hnodup hbase hfound]
    rfl
  · rw [textGroup, at?_append_of_innerGroup?_eq_none hnone] at hgroup
    cases hgroup

end DesignTokens.Figma
