import DesignTokens.Proofs.Figma.Exported

/-!
# Italic weights

An italic weight is put beside every weight, under its name with an ending, whatever stands
there: it is the italic weight then, and everything else below the weights is what it was.
-/

namespace DesignTokens.Figma

open DesignTokens.Tree DesignTokens.Value

variable {keys : Keys} {tree weights : Object} {outer inner name : String} {value node : Value}
  {path : List String}

/-! ## Groups inside groups -/

theorem innerGroup?_eq_at? :
    innerGroup? tree outer inner = ((Value.object tree).at? [outer, inner]).bind Value.object? := by
  rw [innerGroup?, at?_object_cons]
  cases Entries.get? tree outer with
  | none => rfl
  | some member =>
      cases member with
      | object entries =>
          simp only [Option.bind_some, at?_object_cons, Value.member?, Value.object?]
          cases Entries.get? entries inner <;> rfl
      | _ => rfl

theorem innerGroup?_eq_some_iff {group : Object} : innerGroup? tree outer inner = some group ↔
    (Value.object tree).at? [outer, inner] = some (.object group) := by
  rw [innerGroup?_eq_at?]
  constructor
  · intro hgroup
    obtain ⟨found, hfound, hobject⟩ := Option.bind_eq_some_iff.1 hgroup
    cases found with
    | object entries =>
        obtain rfl : entries = group := Option.some.inj hobject
        exact hfound
    | _ => cases hobject
  · intro hfound
    rw [hfound]
    rfl

theorem at?_append_of_innerGroup?_eq_none (hnone : innerGroup? tree outer inner = none)
    (step : String) (rest : List String) :
    (Value.object tree).at? ([outer, inner] ++ step :: rest) = none := by
  rw [at?_append, Option.bind_eq_none_iff]
  intro found hfound
  rw [innerGroup?_eq_at?, hfound, Option.bind_some] at hnone
  apply at?_cons_of_not_object
  rw [isObject, hnone]
  rfl

/-- The group that is put in the place of one holds what it holds by itself. -/
theorem at?_replaceInner_append {old group : Object}
    (hold : innerGroup? tree outer inner = some old) (rest : List String) :
    (Value.object (replaceInner tree outer inner group)).at? ([outer, inner] ++ rest) =
      (Value.object group).at? rest := by
  rw [innerGroup?_eq_some_iff, at?_object_cons] at hold
  obtain ⟨member, hmember, hinner⟩ := Option.bind_eq_some_iff.1 hold
  cases member with
  | object entries =>
      rw [replaceInner, hmember]
      dsimp only
      rw [List.cons_append, at?_object_cons, Entries.get?_insert, if_pos (beq_self_eq_true outer),
        Option.bind_some, List.cons_append, at?_object_cons, Entries.get?_insert,
        if_pos (beq_self_eq_true inner)]
      rfl
  | _ => cases hinner

/-- Away from the group that is replaced, and from the way to it, the tree is what it was. -/
theorem at?_replaceInner_of_not_prefix {group : Object} (houtside : ¬ [outer, inner] <+: path)
    (hbeyond : ¬ path <+: [outer, inner]) :
    (Value.object (replaceInner tree outer inner group)).at? path =
      (Value.object tree).at? path := by
  rw [replaceInner]
  split
  · next entries hentries =>
      cases path with
      | nil => exact absurd List.nil_prefix hbeyond
      | cons first rest =>
          rw [at?_object_cons, at?_object_cons, Entries.get?_insert]
          split
          · next hfirst =>
              obtain rfl := beq_iff_eq.1 hfirst
              rw [hentries, Option.bind_some, Option.bind_some]
              cases rest with
              | nil => exact absurd (by simp) hbeyond
              | cons second more =>
                  have hne : ¬ (inner == second) = true := by
                    rw [beq_iff_eq]
                    rintro rfl
                    exact houtside (by simp)
                  rw [at?_object_cons, at?_object_cons, Entries.get?_insert, if_neg hne]
          · rfl
  · rfl

theorem uniqueKeys_replaceInner (htree : (Value.object tree).UniqueKeys) {group : Object}
    (hgroup : (Value.object group).UniqueKeys) :
    (Value.object (replaceInner tree outer inner group)).UniqueKeys := by
  rw [replaceInner]
  split
  · next entries hentries => exact htree.insert ((htree.of_get? hentries).insert hgroup)
  · exact htree

/-! ## One italic weight for each weight -/

/-- The leaf of the italic weight that belongs to a weight. -/
def italicLeaf (keys : Keys) (value : Value) : Value :=
  leaf keys (some "fontWeights") (.text (value.inline ++ " Italic"))

/-- The italic weights that are put beside the weights. -/
def italicEntries (keys : Keys) (weights : Object) : Object :=
  weights.filterMap fun entry =>
    (entry.2.member? keys.value).map fun value => (entry.1 ++ "Italic", italicLeaf keys value)

theorem italicWeights_eq_update :
    italicWeights keys weights = Entries.update weights (italicEntries keys weights) := by
  rw [italicWeights, Entries.update, italicEntries, List.foldl_filterMap]
  congr 1
  funext found entry
  cases hvalue : entry.2.member? keys.value with
  | none => simp [hvalue]
  | some value => simp [hvalue, italicLeaf]

theorem keys_italicEntries_sublist (weights : Object) :
    (Entries.keys (italicEntries keys weights)).Sublist
      ((Entries.keys weights).map (· ++ "Italic")) := by
  induction weights with
  | nil => exact List.Sublist.refl _
  | cons entry rest ih =>
      rw [italicEntries, List.filterMap_cons]
      cases entry.2.member? keys.value with
      | none => exact ih.cons (entry.1 ++ "Italic")
      | some value => exact ih.cons_cons (entry.1 ++ "Italic")

theorem nodup_keys_italicEntries (hnodup : (Entries.keys weights).Nodup) :
    (Entries.keys (italicEntries keys weights)).Nodup := by
  refine (hnodup.map fun first second hsame => ?_).sublist (keys_italicEntries_sublist weights)
  exact String.append_left_inj _ |>.1 hsame

theorem member?_eq_at? (value : Value) (key : String) : value.member? key = value.at? [key] := by
  cases value with
  | object entries =>
      rw [at?_object_singleton, member?, object?, Option.bind_some]
  | _ => rfl

/-- What is put under a name is the italic weight of the weight with the rest of the name. -/
theorem get?_italicEntries_eq_some_iff (hnodup : (Entries.keys weights).Nodup) :
    Entries.get? (italicEntries keys weights) name = some node ↔
      ∃ weight value, (Value.object weights).at? [weight, keys.value] = some value ∧
        name = weight ++ "Italic" ∧ node = italicLeaf keys value := by
  have hentry : Entries.get? (italicEntries keys weights) name = some node ↔
      (name, node) ∈ italicEntries keys weights :=
    ⟨Entries.mem_of_get?_eq_some, Entries.get?_eq_some_of_mem (nodup_keys_italicEntries hnodup)⟩
  rw [hentry, italicEntries, List.mem_filterMap]
  constructor
  · rintro ⟨⟨weight, member⟩, hmem, hfound⟩
    obtain ⟨value, hvalue, hsame⟩ := Option.map_eq_some_iff.1 hfound
    obtain ⟨rfl, rfl⟩ := Prod.mk.inj hsame
    refine ⟨weight, value, ?_, rfl, rfl⟩
    rwa [at?_object_cons, Entries.get?_eq_some_of_mem hnodup hmem, Option.bind_some,
      ← member?_eq_at?]
  · rintro ⟨weight, value, hvalue, rfl, rfl⟩
    rw [at?_object_cons] at hvalue
    obtain ⟨member, hmember, hvalue⟩ := Option.bind_eq_some_iff.1 hvalue
    rw [← member?_eq_at?] at hvalue
    exact ⟨(weight, member), Entries.mem_of_get?_eq_some hmember, by rw [hvalue]; rfl⟩

theorem get?_italicWeights (hnodup : (Entries.keys weights).Nodup) :
    Entries.get? (italicWeights keys weights) name =
      (Entries.get? (italicEntries keys weights) name).or (Entries.get? weights name) := by
  rw [italicWeights_eq_update, Entries.get?_update_of_nodup (nodup_keys_italicEntries hnodup)]

theorem uniqueKeys_italicWeights (hunique : (Value.object weights).UniqueKeys) :
    (Value.object (italicWeights keys weights)).UniqueKeys := by
  rw [italicWeights_eq_update]
  apply hunique.update
  intro entry hmem
  have hfound := Entries.get?_eq_some_of_mem (nodup_keys_italicEntries hunique.nodup) hmem
  obtain ⟨-, value, -, -, hsame⟩ := (get?_italicEntries_eq_some_iff hunique.nodup).1 hfound
  rw [hsame]
  exact uniqueKeys_leaf trivial

/-! ## The tree with italic weights -/

/-- The value of the weight with the name. -/
def weight? (keys : Keys) (tree : Object) (name : String) : Option Value :=
  (Value.object tree).at? (weightGroup ++ [name, keys.value])

theorem weight?_eq_at? (hweights : innerGroup? tree "typography" "weight" = some weights) :
    weight? keys tree name = (Value.object weights).at? [name, keys.value] := by
  rw [innerGroup?_eq_some_iff] at hweights
  rw [weight?, at?_append, weightGroup, hweights, Option.bind_some]

theorem weight?_eq_none (hnone : innerGroup? tree "typography" "weight" = none) :
    weight? keys tree name = none :=
  at?_append_of_innerGroup?_eq_none hnone name [keys.value]

theorem uniqueKeys_withItalicWeights (hunique : (Value.object tree).UniqueKeys) :
    (Value.object (withItalicWeights keys tree)).UniqueKeys := by
  rw [withItalicWeights]
  split
  · next weights hweights =>
      rw [innerGroup?_eq_some_iff] at hweights
      exact uniqueKeys_replaceInner hunique (uniqueKeys_italicWeights (hunique.at? hweights))
  · exact hunique

/-- Under the italic name of a weight stands its italic weight. -/
theorem at?_withItalicWeights_of_weight? (hunique : (Value.object tree).UniqueKeys)
    (hweight : weight? keys tree name = some value) (rest : List String) :
    (Value.object (withItalicWeights keys tree)).at? (weightGroup ++ [name ++ "Italic"] ++ rest) =
      (italicLeaf keys value).at? rest := by
  cases hweights : innerGroup? tree "typography" "weight" with
  | none =>
      rw [weight?_eq_none hweights] at hweight
      cases hweight
  | some weights =>
      have hnodup : (Entries.keys weights).Nodup :=
        (hunique.at? (innerGroup?_eq_some_iff.1 hweights)).nodup
      rw [weight?_eq_at? hweights] at hweight
      have hitalic : Entries.get? (italicEntries keys weights) (name ++ "Italic") =
          some (italicLeaf keys value) :=
        (get?_italicEntries_eq_some_iff hnodup).2 ⟨name, value, hweight, rfl, rfl⟩
      rw [withItalicWeights, hweights, List.append_assoc]
      dsimp only
      rw [weightGroup, at?_replaceInner_append hweights, List.singleton_append, at?_object_cons,
        get?_italicWeights hnodup, hitalic]
      rfl

/-- Where no italic weight is put, and not on the way to the weights, the tree is what it was. -/
theorem at?_withItalicWeights_eq_self (hunique : (Value.object tree).UniqueKeys)
    (hbeyond : ¬ path <+: weightGroup) (hfree : ∀ name value, weight? keys tree name = some value →
      ¬ weightGroup ++ [name ++ "Italic"] <+: path) :
    (Value.object (withItalicWeights keys tree)).at? path = (Value.object tree).at? path := by
  rw [withItalicWeights]
  split
  · next weights hweights =>
      by_cases hbelow : weightGroup <+: path
      · obtain ⟨rest, rfl⟩ := hbelow
        cases rest with
        | nil => exact absurd (by simp) hbeyond
        | cons name rest =>
            have hnodup : (Entries.keys weights).Nodup :=
              (hunique.at? (innerGroup?_eq_some_iff.1 hweights)).nodup
            have hnone : Entries.get? (italicEntries keys weights) name = none := by
              rw [Option.eq_none_iff_forall_ne_some]
              intro node hnode
              obtain ⟨weight, value, hvalue, rfl, -⟩ :=
                (get?_italicEntries_eq_some_iff hnodup).1 hnode
              rw [← weight?_eq_at? hweights] at hvalue
              exact hfree weight value hvalue (by simp)
            rw [weightGroup, at?_replaceInner_append hweights, at?_object_cons,
              get?_italicWeights hnodup, hnone, Option.none_or, at?_append,
              innerGroup?_eq_some_iff.1 hweights]
            rfl
      · exact at?_replaceInner_of_not_prefix hbelow hbeyond
  · rfl

end DesignTokens.Figma
