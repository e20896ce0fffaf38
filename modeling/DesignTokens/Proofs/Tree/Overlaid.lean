import DesignTokens.Proofs.Tree.Merged

/-!
# What merged trees hold at a path

A merged tree is looked at step by step along a path. Where the upper tree has something it
lies over what the lower one has there, where it has nothing the lower one shows through, and
where it stops the path with a value that is no object the lower one is gone. Of a value
that is laid under another one nothing is left over exactly if the upper value has all of
its members. For the upper value to stay as it is to the letter, their order has to be the
same as well.
-/

namespace DesignTokens

namespace Value

/-- What stands in a value after some steps into objects. -/
def at? (value : Value) : List String → Option Value
  | [] => some value
  | step :: rest =>
    match value with
    | .object entries => (Entries.get? entries step).bind fun member => member.at? rest
    | _ => none

/-- The steps come to a value that is no object while there are more of them. -/
def stops (value : Value) : List String → Bool
  | [] => false
  | step :: rest =>
    match value with
    | .object entries => (Entries.get? entries step).any fun member => member.stops rest
    | _ => true

mutual

/-- Each member of the value, at every depth, is a member of the other one at the same place.
A value that is no object, or over which no object is laid, is replaced as a whole. -/
def IsCoveredBy : Value → Value → Prop
  | .object base, .object upper => EntriesCoveredBy base upper
  | _, _ => True
termination_by structural old => old

def EntriesCoveredBy : List (String × Value) → List (String × Value) → Prop
  | [], _ => True
  | _ :: _, [] => False
  | (key, old) :: base, (name, new) :: upper =>
    key = name ∧ IsCoveredBy old new ∧ EntriesCoveredBy base upper
termination_by structural base => base

end

/-- Both values hold the same after the same steps. The members of an object are compared one
by one, in any order. -/
def SameUpToOrder (first second : Value) : Prop :=
  ∀ steps, Option.Rel (fun one other => one = other ∨ one.isObject ∧ other.isObject)
    (first.at? steps) (second.at? steps)

/-- Somewhere the value has a member that an object in the same place of the other one has not. -/
def HasMemberBeside (old value : Value) : Prop :=
  ∃ steps key upper, (old.at? (steps ++ [key])).isSome ∧ value.at? steps = some (.object upper) ∧
    key ∉ Entries.keys upper

/-! ## Steps -/

variable {value : Value} {entries : Object} {step : String} {rest : List String}

theorem at?_object_cons : (Value.object entries).at? (step :: rest) =
    (Entries.get? entries step).bind fun member => member.at? rest := rfl

theorem at?_object_singleton : (Value.object entries).at? [step] = Entries.get? entries step :=
  Option.bind_fun_some _

theorem stops_object_cons : (Value.object entries).stops (step :: rest) =
    (Entries.get? entries step).any fun member => member.stops rest := rfl

theorem at?_cons_of_not_object (hvalue : value.isObject = false) :
    value.at? (step :: rest) = none := by
  cases value with
  | object => cases hvalue
  | _ => rfl

theorem stops_cons_of_not_object (hvalue : value.isObject = false) :
    value.stops (step :: rest) = true := by
  cases value with
  | object => cases hvalue
  | _ => rfl

theorem at?_append (value : Value) (first second : List String) :
    value.at? (first ++ second) = (value.at? first).bind fun found => found.at? second := by
  induction first generalizing value with
  | nil => rfl
  | cons step rest ih =>
      cases value with
      | object entries =>
          rw [List.cons_append, at?_object_cons, at?_object_cons, Option.bind_assoc]
          exact congrArg _ (funext ih)
      | _ => rfl

theorem UniqueKeys.at? (hunique : value.UniqueKeys) {steps : List String} {found : Value}
    (hfound : value.at? steps = some found) : found.UniqueKeys := by
  induction steps generalizing value with
  | nil => exact Option.some.inj hfound ▸ hunique
  | cons step rest ih =>
      cases value with
      | object entries =>
          rw [at?_object_cons, Option.bind_eq_some_iff] at hfound
          obtain ⟨member, hmember, hfound⟩ := hfound
          exact ih (hunique.of_get? hmember) hfound
      | _ => cases hfound

/-- Steps that are stopped before their last one are stopped as well if they go on in another
way from there. -/
theorem stops_append_cons {first : List String} {last : String}
    (hstops : value.stops (first ++ [last]) = true) :
    value.stops (first ++ step :: rest) = true := by
  induction first generalizing value with
  | nil =>
      cases hvalue : value.isObject with
      | false => exact stops_cons_of_not_object hvalue
      | true =>
          obtain ⟨entries, rfl⟩ := eq_object_of_isObject hvalue
          rw [List.nil_append, stops_object_cons, Option.any_eq_true] at hstops
          obtain ⟨member, -, hmember⟩ := hstops
          cases hmember
  | cons next more ih =>
      cases hvalue : value.isObject with
      | false => exact stops_cons_of_not_object hvalue
      | true =>
          obtain ⟨entries, rfl⟩ := eq_object_of_isObject hvalue
          rw [List.cons_append, stops_object_cons, Option.any_eq_true] at hstops ⊢
          obtain ⟨member, hmember, hlater⟩ := hstops
          exact ⟨member, hmember, ih hlater⟩

/-- A step from an object is not stopped, whether the object has the member or not. -/
theorem stops_append_singleton {steps : List String} {upper : Object}
    (hupper : value.at? steps = some (.object upper)) (key : String) :
    value.stops (steps ++ [key]) = false := by
  induction steps generalizing value with
  | nil =>
      obtain rfl : value = .object upper := Option.some.inj hupper
      cases hmember : Entries.get? upper key <;> simp [stops_object_cons, hmember, stops]
  | cons next more ih =>
      cases hvalue : value.isObject with
      | false =>
          rw [at?_cons_of_not_object hvalue] at hupper
          cases hupper
      | true =>
          obtain ⟨entries, rfl⟩ := eq_object_of_isObject hvalue
          rw [at?_object_cons, Option.bind_eq_some_iff] at hupper
          obtain ⟨member, hmember, hupper⟩ := hupper
          rw [List.cons_append, stops_object_cons, hmember]
          exact ih hupper

/-- Steps that are stopped nowhere are not stopped in front of another last step either. -/
theorem stops_take {path : List String} {last : String}
    (hfree : value.stops (path ++ [last]) = false) {n : ℕ} (hn : n < path.length)
    (other : String) : value.stops (path.take n ++ [other]) = false := by
  by_contra hstops
  have hfurther : value.stops (path.take n ++ path[n] :: (path.drop (n + 1) ++ [last])) = true :=
    stops_append_cons (by simpa using hstops)
  rw [← List.cons_append, List.getElem_cons_drop, ← List.append_assoc, List.take_append_drop,
    hfree] at hfurther
  cases hfurther

theorem SameUpToOrder.refl (value : Value) : value.SameUpToOrder value := by
  intro steps
  cases value.at? steps with
  | none => exact .none
  | some found => exact .some (.inl rfl)

theorem HasMemberBeside.below {base upper : Object} {old new : Value}
    (hold : Entries.get? base step = some old) (hnew : Entries.get? upper step = some new)
    (hmember : old.HasMemberBeside new) :
    (Value.object base).HasMemberBeside (.object upper) := by
  obtain ⟨steps, key, inner, hkept, hinner, hkey⟩ := hmember
  refine ⟨step :: steps, key, inner, ?_, ?_, hkey⟩
  · rw [List.cons_append, at?_object_cons, hold]
    exact hkept
  · rw [at?_object_cons, hnew]
    exact hinner

/-- Where the upper value has nothing, and does not stop the steps either, the lower one has a
member beside it. -/
theorem hasMemberBeside_of_at? {old : Value} {steps : List String} (hnone : value.at? steps = none)
    (hfree : value.stops steps = false) (hold : (old.at? steps).isSome) :
    old.HasMemberBeside value := by
  induction steps generalizing old value with
  | nil => cases hnone
  | cons step rest ih =>
      cases hvalue : value.isObject with
      | false =>
          rw [stops_cons_of_not_object hvalue] at hfree
          cases hfree
      | true =>
          obtain ⟨upper, rfl⟩ := eq_object_of_isObject hvalue
          cases hobject : old.isObject with
          | false =>
              rw [at?_cons_of_not_object hobject] at hold
              cases hold
          | true =>
              obtain ⟨base, rfl⟩ := eq_object_of_isObject hobject
              rw [at?_object_cons] at hnone hold
              rw [stops_object_cons] at hfree
              cases hlower : Entries.get? base step with
              | none => simp [hlower] at hold
              | some lower =>
                  rw [hlower, Option.bind_some] at hold
                  cases hmember : Entries.get? upper step with
                  | none =>
                      refine ⟨[], step, upper, ?_, rfl, Entries.get?_eq_none_iff.1 hmember⟩
                      rw [List.nil_append, at?_object_cons, hlower]
                      rfl
                  | some member =>
                      rw [hmember] at hnone hfree
                      exact (ih hnone hfree hold).below hlower hmember

end Value

namespace Tree

open DesignTokens.Value

variable {value : Value} {base upper : Object}

@[simp]
theorem overlay_none (value : Value) : overlay none value = value := by
  cases value <;> simp [overlay]

theorem overlay_of_old_not_object {old : Value} (hold : old.isObject = false) (value : Value) :
    overlay (some old) value = value := by
  cases old with
  | object => cases hold
  | _ => cases value <;> simp [overlay]

/-! ## Tokens at a path -/

variable {keys : Keys} {path : TokenPath}

theorem not_memberHasLeaf (hvalue : value.isObject = false) : ¬ MemberHasLeaf keys value path := by
  rw [MemberHasLeaf, memberLeaves_of_not_object hvalue]
  exact List.not_mem_nil

/-- A tree leads to a token through the member that the first step names. -/
theorem hasLeaf_cons_iff {tree : Object} (hunique : (Value.object tree).UniqueKeys) {step : String}
    {rest : List String} :
    HasLeaf keys tree (step :: rest) ↔ isReserved step = false ∧
      ∃ member, Entries.get? tree step = some member ∧ MemberHasLeaf keys member rest := by
  rw [hasLeaf_iff]
  constructor
  · rintro ⟨⟨name, member⟩, hmem, hname, steps, hpath, hleaf⟩
    obtain ⟨rfl, rfl⟩ := List.cons.inj hpath
    exact ⟨hname, member, Entries.get?_eq_some_of_mem hunique.nodup hmem, hleaf⟩
  · rintro ⟨hstep, member, hmember, hleaf⟩
    exact ⟨(step, member), Entries.mem_of_get?_eq_some hmember, hstep, rest, rfl, hleaf⟩

/-- A token stands where the steps lead to an object with a value key, past no other one and
through no reserved name. -/
theorem memberHasLeaf_iff (hunique : value.UniqueKeys) : MemberHasLeaf keys value path ↔
    (∀ step ∈ path, isReserved step = false) ∧ (value.at? (path ++ [keys.value])).isSome ∧
      ∀ n < path.length, value.at? (path.take n ++ [keys.value]) = none := by
  induction path generalizing value with
  | nil =>
      cases hobject : value.isObject with
      | false => simp [not_memberHasLeaf hobject, at?_cons_of_not_object hobject]
      | true =>
          obtain ⟨entries, rfl⟩ := eq_object_of_isObject hobject
          cases hvalue : Entries.get? entries keys.value with
          | none =>
              rw [memberHasLeaf_of_group (by simp [Entries.contains, hvalue]), hasLeaf_iff]
              simp [at?_object_cons, hvalue]
          | some found =>
              rw [memberHasLeaf_of_token (by simp [Entries.contains, hvalue])]
              simp [at?_object_cons, hvalue, at?]
  | cons step rest ih =>
      cases hobject : value.isObject with
      | false => simp [not_memberHasLeaf hobject, at?_cons_of_not_object hobject]
      | true =>
          obtain ⟨entries, rfl⟩ := eq_object_of_isObject hobject
          rw [List.cons_append, at?_object_cons, List.forall_mem_cons, List.length_cons,
            Nat.forall_lt_succ_left]
          simp only [List.take_zero, List.take_succ_cons, List.nil_append, List.cons_append,
            at?_object_cons]
          cases hvalue : Entries.get? entries keys.value with
          | some found =>
              rw [memberHasLeaf_of_token (by simp [Entries.contains, hvalue])]
              simp [at?]
          | none =>
              rw [memberHasLeaf_of_group (by simp [Entries.contains, hvalue]),
                hasLeaf_cons_iff hunique]
              cases hmember : Entries.get? entries step with
              | none => simp
              | some member => simp [ih (hunique.of_get? hmember), and_assoc]

/-- The root itself is no token, whatever keys it has. -/
theorem hasLeaf_iff_at? {tree : Object} (hunique : (Value.object tree).UniqueKeys) :
    HasLeaf keys tree path ↔ path ≠ [] ∧ (∀ step ∈ path, isReserved step = false) ∧
      ((Value.object tree).at? (path ++ [keys.value])).isSome ∧
        ∀ n < path.length, n ≠ 0 →
          (Value.object tree).at? (path.take n ++ [keys.value]) = none := by
  cases path with
  | nil => simp [hasLeaf_iff]
  | cons step rest =>
      rw [hasLeaf_cons_iff hunique, List.cons_append, at?_object_cons, List.forall_mem_cons,
        List.length_cons, Nat.forall_lt_succ_left]
      simp only [List.take_succ_cons, List.cons_append, at?_object_cons]
      cases hmember : Entries.get? tree step with
      | none => simp
      | some member => simp [memberHasLeaf_iff (hunique.of_get? hmember), and_assoc]

mutual

theorem at?_of_mem_memberLeaves (value : Value) (hunique : value.UniqueKeys) {leaf : Leaf}
    (hleaf : leaf ∈ memberLeaves keys value) :
    value.at? leaf.path = some (.object leaf.entries) ∧
      Entries.contains leaf.entries keys.value = true := by
  cases value with
  | object entries =>
      rw [memberLeaves] at hleaf
      split at hleaf
      · next htoken =>
          rw [List.mem_singleton.1 hleaf]
          exact ⟨rfl, htoken⟩
      · obtain ⟨inner, hinner, rfl⟩ := List.mem_map.1 hleaf
        obtain ⟨step, steps, member, hpath, hmember, hfound, htoken⟩ :=
          exists_of_mem_leaves entries hunique hinner
        change (Value.object entries).at? inner.path = some (.object inner.entries) ∧ _
        rw [hpath, at?_object_cons, hmember]
        exact ⟨hfound, htoken⟩
  | _ => simp [memberLeaves] at hleaf
termination_by structural value

/-- The path of a leaf leads to its entries. -/
theorem exists_of_mem_leaves (tree : List (String × Value))
    (hunique : (Value.object tree).UniqueKeys) {leaf : Leaf} (hleaf : leaf ∈ leaves keys tree) :
    ∃ step steps member, leaf.path = step :: steps ∧ Entries.get? tree step = some member ∧
      member.at? steps = some (.object leaf.entries) ∧
        Entries.contains leaf.entries keys.value = true := by
  cases tree with
  | nil => simp [leaves] at hleaf
  | cons entry rest =>
      obtain ⟨name, member⟩ := entry
      obtain ⟨hnew, -⟩ := List.nodup_cons.1 hunique.nodup
      rw [leaves, List.mem_append] at hleaf
      rcases hleaf with hhere | hlater
      · split at hhere
        · simp at hhere
        · obtain ⟨inner, hinner, rfl⟩ := List.mem_map.1 hhere
          refine ⟨name, inner.path, member, rfl, by simp [Entries.get?_cons], ?_⟩
          exact at?_of_mem_memberLeaves member (hunique.of_mem List.mem_cons_self) hinner
      · obtain ⟨step, steps, found, hpath, hfound, hrest⟩ :=
          exists_of_mem_leaves rest hunique.tail hlater
        have hne : name ≠ step := by
          rintro rfl
          rw [Entries.get?_eq_none_iff.2 hnew] at hfound
          cases hfound
        exact ⟨step, steps, found, hpath, by simpa [Entries.get?_cons, hne] using hfound, hrest⟩
termination_by structural tree

end

/-! ## Members of merged objects -/

theorem get?_merge (hupper : (Entries.keys upper).Nodup) (base : Object) (key : String) :
    Entries.get? (merge base upper) key =
      match Entries.get? upper key with
      | some value => some (overlay (Entries.get? base key) value)
      | none => Entries.get? base key := by
  induction upper generalizing base with
  | nil => simp
  | cons entry rest ih =>
      obtain ⟨name, value⟩ := entry
      obtain ⟨hnew, hrest⟩ := List.nodup_cons.1 hupper
      rw [merge_cons, ih hrest, Entries.get?_insert, Entries.get?_cons]
      by_cases hname : name = key
      · subst hname
        rw [Entries.get?_eq_none_iff.2 hnew]
        simp
      · simp [hname]

/-- The keys of the lower object come first, then those that only the upper one has. -/
theorem keys_merge (hupper : (Entries.keys upper).Nodup) (base : Object) :
    Entries.keys (merge base upper) =
      Entries.keys base ++ (Entries.keys upper).filter fun key => key ∉ Entries.keys base := by
  induction upper generalizing base with
  | nil => simp [Entries.keys]
  | cons entry rest ih =>
      obtain ⟨name, value⟩ := entry
      obtain ⟨hnew, hrest⟩ := List.nodup_cons.1 hupper
      have hkeys : Entries.keys ((name, value) :: rest) = name :: Entries.keys rest := rfl
      rw [merge_cons, ih hrest, hkeys]
      by_cases hmem : name ∈ Entries.keys base
      · rw [Entries.keys_insert_of_mem hmem, List.filter_cons_of_neg (by simpa using hmem)]
      · rw [Entries.keys_insert_of_not_mem hmem, List.filter_cons_of_pos (by simpa using hmem),
          List.append_assoc, List.singleton_append]
        congr 2
        apply List.filter_congr
        intro key hkey
        have hne : key ≠ name := fun hsame => hnew (hsame ▸ hkey)
        simp [hne]

/-- Over a value that is no object another one is laid as it stands. -/
theorem overlay_of_forall_not_object {old : Option Value}
    (hold : ∀ base, old = some base → base.isObject = false) (value : Value) :
    overlay old value = value := by
  cases old with
  | none => exact overlay_none value
  | some base => exact overlay_of_old_not_object (hold base rfl) value

theorem not_object_of_not_exists {old : Option Value} (hold : ¬ ∃ base, old = some (.object base)) :
    ∀ base, old = some base → base.isObject = false := by
  intro base hbase
  by_contra hobject
  obtain ⟨entries, rfl⟩ := eq_object_of_isObject (by simpa using hobject)
  exact hold ⟨entries, hbase⟩

/-- What a value holds after some steps when it is laid over another one. -/
theorem at?_overlay (hunique : value.UniqueKeys) (old : Option Value) (steps : List String) :
    (overlay old value).at? steps =
      match value.at? steps with
      | some found => some (overlay (old.bind fun base => base.at? steps) found)
      | none => if value.stops steps then none else old.bind fun base => base.at? steps := by
  induction steps generalizing value old with
  | nil => cases old <;> rfl
  | cons step rest ih =>
      by_cases hold : ∃ base, old = some (.object base)
      · obtain ⟨base, rfl⟩ := hold
        cases hvalue : value.isObject with
        | false =>
            rw [overlay_of_not_object hvalue, at?_cons_of_not_object hvalue,
              stops_cons_of_not_object hvalue]
            rfl
        | true =>
            obtain ⟨upper, rfl⟩ := eq_object_of_isObject hvalue
            rw [overlay_object, at?_object_cons, get?_merge hunique.nodup, at?_object_cons,
              stops_object_cons]
            cases hmember : Entries.get? upper step with
            | none => simp [at?_object_cons]
            | some member => exact ih (hunique.of_get? hmember) _
      · -- Nothing of the old value is kept, and there is nothing to be found in it.
        have hleaf := not_object_of_not_exists hold
        have hnone : (old.bind fun base => base.at? (step :: rest)) = none := by
          rw [Option.bind_eq_none_iff]
          exact fun base hbase => at?_cons_of_not_object (hleaf base hbase)
        rw [overlay_of_forall_not_object hleaf, hnone]
        cases value.at? (step :: rest) <;> simp

/-! ## What is left over -/

/-- A key that the upper object has not keeps its place and its value. -/
theorem merge_cons_of_not_mem {key : String} (hkey : key ∉ Entries.keys upper) (old : Value)
    (base : Object) : merge ((key, old) :: base) upper = (key, old) :: merge base upper := by
  induction upper generalizing base with
  | nil => simp
  | cons entry rest ih =>
      obtain ⟨name, value⟩ := entry
      obtain ⟨hne, hrest⟩ := not_or.1 (mt List.mem_cons.2 hkey)
      have hinsert : ∀ value, Entries.insert ((key, old) :: base) name value =
          (key, old) :: Entries.insert base name value := by
        simp [Entries.insert, hne]
      rw [merge_cons, merge_cons, hinsert, ih hrest, Entries.get?_cons,
        if_neg (by simpa using hne)]

/-- An object that has no key of the lower one goes behind it. -/
theorem merge_of_disjoint (hupper : (Entries.keys upper).Nodup)
    (hnew : ∀ key ∈ Entries.keys upper, key ∉ Entries.keys base) :
    merge base upper = base ++ upper := by
  induction upper generalizing base with
  | nil => simp
  | cons entry rest ih =>
      obtain ⟨name, value⟩ := entry
      obtain ⟨hname, hrest⟩ := List.nodup_cons.1 hupper
      obtain ⟨hfirst, hlater⟩ := List.forall_mem_cons.1 hnew
      have hnone := Entries.get?_eq_none_iff.2 hfirst
      rw [merge_cons, hnone, overlay_none, Entries.insert_of_get?_eq_none hnone, ih hrest,
        List.append_assoc, List.singleton_append]
      intro key hkey hmem
      rw [Entries.keys, List.map_append, List.mem_append] at hmem
      rcases hmem with hold | hsame
      · exact hlater key hkey hold
      · exact hname (List.mem_singleton.1 hsame ▸ hkey)

mutual

/-- A value stays as it is when it is laid over one that it covers, and only then. -/
theorem overlay_eq_iff (old value : Value) (hold : old.UniqueKeys) (hvalue : value.UniqueKeys) :
    overlay (some old) value = value ↔ old.IsCoveredBy value := by
  cases old with
  | object base =>
      cases value with
      | object upper =>
          rw [overlay_object, IsCoveredBy, Value.object.injEq]
          exact merge_eq_iff base upper hold hvalue
      | _ => simp [overlay, IsCoveredBy]
  | _ => exact iff_of_true (overlay_of_old_not_object rfl value) trivial
termination_by structural old

theorem merge_eq_iff (base : List (String × Value)) (upper : Object)
    (hbase : (Value.object base).UniqueKeys) (hupper : (Value.object upper).UniqueKeys) :
    merge base upper = upper ↔ EntriesCoveredBy base upper := by
  cases base with
  | nil =>
      rw [merge_of_disjoint hupper.nodup (by simp [Entries.keys])]
      simp [EntriesCoveredBy]
  | cons lower base =>
      obtain ⟨key, old⟩ := lower
      cases upper with
      | nil => simp [EntriesCoveredBy]
      | cons entry upper =>
          obtain ⟨name, new⟩ := entry
          rw [EntriesCoveredBy]
          by_cases hsame : key = name
          · subst hsame
            have hnew : key ∉ Entries.keys upper := (List.nodup_cons.1 hupper.nodup).1
            have hinsert : ∀ value, Entries.insert ((key, old) :: base) key value =
                (key, value) :: base := by
              simp [Entries.insert]
            rw [merge_cons, hinsert, merge_cons_of_not_mem hnew, Entries.get?_cons,
              if_pos (by simp), List.cons.injEq, Prod.mk.injEq,
              merge_eq_iff base upper hbase.tail hupper.tail,
              overlay_eq_iff old new (hbase.of_mem List.mem_cons_self)
                (hupper.of_mem List.mem_cons_self)]
            simp
          · refine iff_of_false ?_ fun hcovered => hsame hcovered.1
            intro hmerged
            have hkeys := keys_merge hupper.nodup ((key, old) :: base)
            rw [hmerged] at hkeys
            exact hsame (List.cons.inj hkeys).1.symm
termination_by structural base

end

/-- A value stays as it is exactly if nothing is left over of what it is laid over. -/
theorem overlay_eq_self_iff {old : Option Value} (hold : ∀ base, old = some base → base.UniqueKeys)
    (hvalue : value.UniqueKeys) :
    overlay old value = value ↔ ∀ base, old = some base → base.IsCoveredBy value := by
  cases old with
  | none => simp
  | some base => simp [overlay_eq_iff base value (hold base rfl) hvalue]

theorem isObject_overlay (old : Option Value) (value : Value) :
    (overlay old value).isObject = value.isObject := by
  cases hvalue : value.isObject with
  | false => rw [overlay_of_not_object hvalue, hvalue]
  | true =>
      obtain ⟨upper, rfl⟩ := eq_object_of_isObject hvalue
      simp only [overlay]
      split <;> rfl

/-- A value stays the same up to order exactly if nothing is left over beside it. -/
theorem sameUpToOrder_overlay_iff {old : Option Value} (hvalue : value.UniqueKeys) :
    (overlay old value).SameUpToOrder value ↔
      ∀ base, old = some base → ¬ base.HasMemberBeside value := by
  constructor
  · rintro hsame base rfl ⟨steps, key, upper, hkept, hupper, hkey⟩
    have hnone : value.at? (steps ++ [key]) = none := by
      rw [at?_append, hupper, Option.bind_some, at?_object_cons, Entries.get?_eq_none_iff.2 hkey]
      rfl
    obtain ⟨kept, hkept⟩ := Option.isSome_iff_exists.1 hkept
    have hthere := hsame (steps ++ [key])
    rw [at?_overlay hvalue, hnone, stops_append_singleton hupper, Option.bind_some, hkept] at hthere
    cases hthere
  · intro hnothing steps
    rw [at?_overlay hvalue]
    cases hfound : value.at? steps with
    | some found =>
        refine .some ?_
        cases hobject : found.isObject with
        | false => exact .inl (overlay_of_not_object hobject _)
        | true => exact .inr ⟨by rw [isObject_overlay, hobject], rfl⟩
    | none =>
        cases hstops : value.stops steps with
        | true => exact .none
        | false =>
            have hold : (old.bind fun base => base.at? steps) = none := by
              rw [Option.bind_eq_none_iff]
              intro base hbase
              by_contra hsome
              have hkept := Option.isSome_iff_ne_none.2 hsome
              exact hnothing base hbase (hasMemberBeside_of_at? hfound hstops hkept)
            simp only [hold, Bool.false_eq_true, if_false]
            exact .none

end Tree

end DesignTokens
