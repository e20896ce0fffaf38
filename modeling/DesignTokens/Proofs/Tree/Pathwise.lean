import DesignTokens.Proofs.Tree.Overlaid

/-!
# Merging path by path

What a merged tree holds at a path is said by what the two trees hold there and by where the
upper one has values that are no objects: those stand for whole subtrees. Where both trees have
an object, the keys of the lower one come first and keep their order. Laid over the merged tree
once more, the upper one finds everything in place.
-/

namespace DesignTokens

namespace Value

/-- Path by path, `merged` is what one value becomes when another one is laid over it. -/
structure IsOverlay (base upper merged : Value) : Prop where
  /-- The upper value counts where it has no object, or one that meets no object. -/
  replaced : ∀ steps found, upper.at? steps = some found →
    (found.isObject = false ∨ ∀ old, base.at? steps = some old → old.isObject = false) →
      merged.at? steps = some found
  /-- Where the upper value has nothing and nothing in the way either, the lower one counts. -/
  kept : ∀ steps, upper.at? steps = none →
    (∀ n < steps.length, ∀ found, upper.at? (steps.take n) = some found → found.isObject = true) →
      merged.at? steps = base.at? steps
  /-- Below a value of the upper one that is no object there is nothing. -/
  gone : ∀ steps, ∀ n < steps.length, ∀ found, upper.at? (steps.take n) = some found →
    found.isObject = false → merged.at? steps = none
  /-- Where both have an object, there is one with the keys of both. -/
  joined : ∀ steps lower laid, base.at? steps = some (.object lower) →
    upper.at? steps = some (.object laid) → ∃ both, merged.at? steps = some (.object both) ∧
      Entries.keys both =
        Entries.keys lower ++ (Entries.keys laid).filter fun key => key ∉ Entries.keys lower

/-- Steps are stopped where the first of them lead to a value that is no object. -/
theorem stops_iff {value : Value} {steps : List String} : value.stops steps = true ↔
    ∃ n < steps.length, ∃ found, value.at? (steps.take n) = some found ∧
      found.isObject = false := by
  induction steps generalizing value with
  | nil => simp [stops]
  | cons step rest ih =>
      rw [List.length_cons, Nat.exists_lt_succ_left]
      simp only [List.take_zero, List.take_succ_cons]
      cases hobject : value.isObject with
      | false =>
          rw [stops_cons_of_not_object hobject]
          exact iff_of_true rfl (.inl ⟨value, rfl, hobject⟩)
      | true =>
          obtain ⟨entries, rfl⟩ := eq_object_of_isObject hobject
          rw [stops_object_cons]
          simp only [at?_object_cons]
          cases hmember : Entries.get? entries step with
          | none => simp [at?, hobject]
          | some member => simp [at?, hobject, ih]

/-- Steps that are stopped lead to nothing. -/
theorem at?_eq_none_of_stops {value : Value} {steps : List String}
    (hstops : value.stops steps = true) : value.at? steps = none := by
  induction steps generalizing value with
  | nil => cases hstops
  | cons step rest ih =>
      cases hobject : value.isObject with
      | false => exact at?_cons_of_not_object hobject
      | true =>
          obtain ⟨entries, rfl⟩ := eq_object_of_isObject hobject
          rw [stops_object_cons, Option.any_eq_true] at hstops
          obtain ⟨member, hmember, hlater⟩ := hstops
          rw [at?_object_cons, hmember, Option.bind_some, ih hlater]

end Value

namespace Tree

open DesignTokens.Value

variable {base upper : Object}

theorem isOverlay_merge (hupper : (Value.object upper).UniqueKeys) (base : Object) :
    (Value.object base).IsOverlay (.object upper) (.object (merge base upper)) := by
  have hat (steps : List String) := at?_overlay hupper (some (.object base)) steps
  simp only [overlay_object, Option.bind_some] at hat
  constructor
  · intro steps found hfound halone
    rw [hat, hfound]
    rcases halone with hleaf | hbase
    · exact congrArg some (overlay_of_not_object hleaf _)
    · exact congrArg some (overlay_of_forall_not_object hbase found)
  · intro steps hnone hfree
    have hstops : (Value.object upper).stops steps = false := by
      rw [Bool.eq_false_iff, ne_eq, stops_iff]
      rintro ⟨n, hn, found, hfound, hleaf⟩
      rw [hfree n hn found hfound] at hleaf
      cases hleaf
    rw [hat, hnone, hstops]
    rfl
  · intro steps n hn found hfound hleaf
    have hstops := stops_iff.2 ⟨n, hn, found, hfound, hleaf⟩
    rw [hat, at?_eq_none_of_stops hstops, hstops]
    rfl
  · intro steps lower laid hlower hlaid
    refine ⟨merge lower laid, ?_, keys_merge (hupper.at? hlaid).nodup lower⟩
    rw [hat, hlower, hlaid]
    exact congrArg some (overlay_object lower laid)

/-! ## Merging twice -/

/-- Over nothing an object is laid as it stands. -/
theorem merge_nil_left (hupper : (Entries.keys upper).Nodup) : merge [] upper = upper :=
  merge_of_disjoint hupper fun _ _ => List.not_mem_nil

mutual

theorem merge_merge_self (upper : List (String × Value)) (hupper : (Value.object upper).UniqueKeys)
    (base : Object) : merge (merge base upper) upper = merge base upper := by
  cases upper with
  | nil => rw [merge_nil, merge_nil]
  | cons entry rest =>
      obtain ⟨key, value⟩ := entry
      obtain ⟨hnew, hrest⟩ := List.nodup_cons.1 hupper.nodup
      rw [merge_cons base]
      generalize hplaced : overlay (Entries.get? base key) value = placed
      -- The rest does not touch the key, so the value is found where it was placed.
      have hthere : Entries.get? (merge (Entries.insert base key placed) rest) key =
          some placed := by
        rw [get?_merge hrest, Entries.get?_eq_none_iff.2 hnew, Entries.get?_insert]
        simp
      have hagain : overlay (some placed) value = placed := by
        rw [← hplaced]
        exact overlay_overlay_self value (hupper.of_mem List.mem_cons_self) _
      rw [merge_cons, hthere, hagain, Entries.insert_of_get?_eq_some hthere,
        merge_merge_self rest hupper.tail]
termination_by structural upper

theorem overlay_overlay_self (value : Value) (hvalue : value.UniqueKeys) (old : Option Value) :
    overlay (some (overlay old value)) value = overlay old value := by
  cases value with
  | object upper =>
      by_cases hold : ∃ base, old = some (.object base)
      · obtain ⟨base, rfl⟩ := hold
        rw [overlay_object, overlay_object, merge_merge_self upper hvalue]
      · have hself := merge_merge_self upper hvalue []
        rw [merge_nil_left hvalue.nodup] at hself
        rw [overlay_of_forall_not_object (not_object_of_not_exists hold), overlay_object, hself]
  | _ => rfl
termination_by structural value

end

/-- Merging lays the upper tree over the lower one path by path, and doing it again changes
nothing. -/
theorem merge_overlays (base upper : Object) (hupper : (Value.object upper).UniqueKeys) :
    (Value.object base).IsOverlay (.object upper) (.object (merge base upper)) ∧
      merge (merge base upper) upper = merge base upper :=
  ⟨isOverlay_merge hupper base, merge_merge_self upper hupper base⟩

/-- Two trees in which objects meet values of both kinds. -/
def plainPage : Object :=
  [("head", .object [("size", .int 1), ("ink", .object [("hue", .int 2)])]), ("foot", .int 3)]

def inkedPage : Object :=
  [("foot", .object [("size", .int 4)]),
    ("head", .object [("gap", .null), ("ink", .text "red")])]

theorem merge_overlays_pages : (Value.object inkedPage).UniqueKeys ∧
    (Value.object plainPage).IsOverlay (.object inkedPage) (.object (merge plainPage inkedPage)) ∧
      merge (merge plainPage inkedPage) inkedPage = merge plainPage inkedPage :=
  have hunique : (Value.object inkedPage).UniqueKeys := by
    simp [inkedPage, Value.UniqueKeys, Value.EntriesUnique, Entries.keys]
  ⟨hunique, merge_overlays plainPage inkedPage hunique⟩

example : merge plainPage inkedPage =
    [("head", .object [("size", .int 1), ("ink", .text "red"), ("gap", .null)]),
      ("foot", .object [("size", .int 4)])] := rfl

end Tree

end DesignTokens
