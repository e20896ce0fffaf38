import Mathlib.Data.List.Induction
import Mathlib.Data.List.Nodup
import DesignTokens.Mode.Axis
import DesignTokens.Mode.Breakpoint
import DesignTokens.Mode.Names
import DesignTokens.Proofs.Traced

/-!
# Names of the tokens of one mode

The tokens of one mode are entered one by one under the names they share with other
modes. This succeeds exactly when the names are distinct, and then every token stands
under its name, in the order of the tokens.
-/

namespace DesignTokens

namespace Mode

variable {mode : String} {lead : Option String} {entered named : List (String × Token)}

/-- A token under the name that it shares with the same token under other modes. -/
def entry (mode : String) (lead : Option String) (token : Token) : String × Token :=
  (token.nameWithout mode lead, token)

/-- The token is bound to the mode and takes the name. -/
def Takes (mode : String) (lead : Option String) (name : String) (token : Token) : Prop :=
  token.mode = some mode ∧ token.nameWithout mode lead = name
deriving Decidable

/-- A token that is bound to the mode takes the name. -/
def IsTaken (mode : String) (lead : Option String) (tokens : List Token) (name : String) : Prop :=
  ∃ token ∈ tokens, Takes mode lead name token
deriving Decidable

theorem enter_eq_ok {name : String} {token : Token} :
    enter mode entered name token = .ok named ↔
      name ∉ Entries.keys entered ∧ named = entered ++ [(name, token)] := by
  rw [enter, ← Entries.get?_eq_none_iff]
  cases Entries.get? entered name <;> simp [eq_comm]

theorem nodup_keys_append_singleton {name : String} {token : Token} :
    (Entries.keys (entered ++ [(name, token)])).Nodup ↔
      (Entries.keys entered).Nodup ∧ name ∉ Entries.keys entered := by
  rw [Entries.keys, List.map_append, List.map_singleton, ← List.concat_eq_append,
    List.nodup_concat, and_comm]
  rfl

theorem byName_append_singleton (tokens : List Token) (token : Token) :
    byName (tokens ++ [token]) mode lead = (do
      let named ← byName tokens mode lead
      enter mode named (token.nameWithout mode lead) token) := by
  rw [byName, List.foldlM_append, byName]
  simp only [List.foldlM_cons, List.foldlM_nil, bind_pure]

/-- The tokens of one mode have names exactly when these are distinct. -/
theorem byName_eq_ok {tokens : List Token} :
    byName tokens mode lead = .ok named ↔
      named = tokens.map (entry mode lead) ∧ (Entries.keys named).Nodup := by
  induction tokens using List.reverseRecOn generalizing named with
  | nil =>
      simp only [byName, List.foldlM_nil, pure, Except.pure, Except.ok.injEq, List.map_nil]
      constructor
      · rintro rfl
        exact ⟨rfl, List.nodup_nil⟩
      · rintro ⟨rfl, -⟩
        rfl
  | append_singleton tokens token ih =>
      simp only [byName_append_singleton, Failing.bind_eq_ok, ih, enter_eq_ok, List.map_append,
        List.map_singleton]
      constructor
      · rintro ⟨before, ⟨rfl, hbefore⟩, hnew, rfl⟩
        exact ⟨rfl, nodup_keys_append_singleton.2 ⟨hbefore, hnew⟩⟩
      · rintro ⟨rfl, hnodup⟩
        obtain ⟨hbefore, hnew⟩ := nodup_keys_append_singleton.1 hnodup
        exact ⟨_, ⟨rfl, hbefore⟩, hnew, rfl⟩

end Mode

namespace ModeAxis

open scoped List

variable {axis : ModeAxis} {tokens : List Token} {modes : List String}

/-- The name under which a token is declared among the tokens of an axis. -/
def nameOf (axis : ModeAxis) (lead : Option String) (token : Token) : String :=
  token.nameWithout (token.mode.filter fun mode => axis.values.contains mode) lead

/-- Apart from its default the axis has at most one mode. -/
def IsPair (axis : ModeAxis) : Prop :=
  ∀ mode ∈ axis.values, mode ≠ axis.default → axis.second? = some mode

theorem unmoded_subset (axis : ModeAxis) (tokens : List Token) : axis.unmoded tokens ⊆ tokens :=
  List.filter_subset_self tokens

theorem bucket_subset (axis : ModeAxis) (tokens : List Token) (mode : String) :
    axis.bucket tokens mode ⊆ tokens := by
  rw [bucket]
  split
  · exact List.filter_subset_self tokens
  · exact List.nil_subset tokens

/-- A token of an axis holds under every mode, under its own name, or is bound to one of them,
under its name without it. -/
theorem mem_unmoded_or_mem_bucket (axis : ModeAxis) (lead : Option String) {token : Token}
    (hmem : token ∈ tokens) :
    (token ∈ axis.unmoded tokens ∧ axis.nameOf lead token = token.name) ∨
      ∃ mode ∈ axis.values, token ∈ axis.bucket tokens mode ∧
        axis.nameOf lead token = token.nameWithout mode lead := by
  cases hmode : token.mode with
  | none => exact .inl ⟨by simp [unmoded, hmem, hmode], by simp [nameOf, hmode, Token.nameWithout]⟩
  | some mode =>
      by_cases hvalue : mode ∈ axis.values
      · refine .inr ⟨mode, hvalue, by simp [bucket, hvalue, hmem, hmode], ?_⟩
        simp [nameOf, hmode, hvalue, Option.filter]
      · refine .inl ⟨by simp [unmoded, hmem, hmode, hvalue], ?_⟩
        simp [nameOf, hmode, hvalue, Option.filter, Token.nameWithout]

theorem forall_mem_iff (axis : ModeAxis) {P : Token → Prop} :
    (∀ token ∈ tokens, P token) ↔ (∀ token ∈ axis.unmoded tokens, P token) ∧
      ∀ mode ∈ axis.values, ∀ token ∈ axis.bucket tokens mode, P token := by
  constructor
  · intro hall
    constructor
    · intro token htoken
      exact hall token (axis.unmoded_subset tokens htoken)
    · intro mode _ token htoken
      exact hall token (axis.bucket_subset tokens mode htoken)
  · rintro ⟨hunmoded, hbound⟩ token htoken
    rcases axis.mem_unmoded_or_mem_bucket none htoken with ⟨hin, -⟩ | ⟨mode, hmode, hin, -⟩
    · exact hunmoded token hin
    · exact hbound mode hmode token hin

theorem not_mem_values_of_mem_unmoded {token : Token} (hmem : token ∈ axis.unmoded tokens) :
    ∀ mode ∈ token.mode, mode ∉ axis.values := by
  intro mode hmode
  simpa [Option.mem_def.1 hmode] using (List.mem_filter.1 hmem).2

/-- The tokens that are bound to one of some modes. -/
def boundTo (modes : List String) (tokens : List Token) : List Token :=
  tokens.filter fun token => token.mode.any fun mode => modes.contains mode

theorem filter_boundTo_cons (mode : String) (rest : List String) :
    ((boundTo (mode :: rest) tokens).filter fun token => token.mode == some mode) =
      tokens.filter fun token => token.mode == some mode := by
  rw [boundTo, List.filter_filter]
  apply List.filter_congr
  intro token _
  cases token.mode with
  | none => rfl
  | some other => by_cases heq : other = mode <;> simp [heq]

theorem filter_not_boundTo_cons {mode : String} {rest : List String} (hnew : mode ∉ rest) :
    ((boundTo (mode :: rest) tokens).filter fun token => !(token.mode == some mode)) =
      boundTo rest tokens := by
  rw [boundTo, boundTo, List.filter_filter]
  apply List.filter_congr
  intro token _
  cases token.mode with
  | none => rfl
  | some other =>
      by_cases heq : other = mode
      · simp [heq, hnew]
      · simp [heq]

/-- The tokens of some modes, mode by mode. -/
theorem perm_flatMap_bucket (hmodes : ∀ mode ∈ modes, mode ∈ axis.values) (hnodup : modes.Nodup) :
    (modes.flatMap (axis.bucket tokens)).Perm (boundTo modes tokens) := by
  induction modes with
  | nil => simp [boundTo]
  | cons mode rest ih =>
      rw [List.forall_mem_cons] at hmodes
      obtain ⟨hnew, hrest⟩ := List.nodup_cons.1 hnodup
      calc axis.bucket tokens mode ++ rest.flatMap (axis.bucket tokens)
          ~ axis.bucket tokens mode ++ boundTo rest tokens := (ih hmodes.2 hrest).append_left _
        _ ~ boundTo (mode :: rest) tokens := by
            rw [bucket, if_pos hmodes.1, ← filter_boundTo_cons mode rest,
              ← filter_not_boundTo_cons hnew]
            exact List.filter_append_perm _ _

/-- The tokens of an axis are those without a mode of it and those of each of its modes. -/
theorem perm_unmoded_append (hnodup : modes.Nodup)
    (hmodes : ∀ mode, mode ∈ modes ↔ mode ∈ axis.values) :
    (axis.unmoded tokens ++ modes.flatMap (axis.bucket tokens)).Perm tokens := by
  have hbound : boundTo modes tokens = boundTo axis.values tokens := by
    apply List.filter_congr
    intro token _
    cases token.mode <;> simp [hmodes]
  have hbuckets := @perm_flatMap_bucket axis tokens _ (fun mode => (hmodes mode).1) hnodup
  rw [hbound] at hbuckets
  calc axis.unmoded tokens ++ modes.flatMap (axis.bucket tokens)
      ~ axis.unmoded tokens ++ boundTo axis.values tokens := hbuckets.append_left _
    _ ~ boundTo axis.values tokens ++ axis.unmoded tokens := List.perm_append_comm
    _ ~ tokens := List.filter_append_perm _ _

end ModeAxis

namespace Mode

/-! ## The tokens of one mode of an axis -/

variable {mode : String} {lead : Option String} {axis : ModeAxis} {tokens : List Token}

/-- The tokens of one mode of an axis under their names. -/
def entriesOf (axis : ModeAxis) (tokens : List Token) (lead : Option String) (mode : String) :
    List (String × Token) :=
  (axis.bucket tokens mode).map (entry mode lead)

theorem byName_bucket_eq_ok {entries : List (String × Token)} :
    byName (axis.bucket tokens mode) mode lead = .ok entries ↔
      entries = entriesOf axis tokens lead mode ∧
        (Entries.keys (entriesOf axis tokens lead mode)).Nodup := by
  rw [byName_eq_ok]
  exact and_congr_right fun hentries => by rw [hentries, entriesOf]

@[simp]
theorem entriesOf_nil (axis : ModeAxis) (lead : Option String) (mode : String) :
    entriesOf axis [] lead mode = [] := by
  rw [entriesOf, ModeAxis.bucket, List.filter_nil, ite_self, List.map_nil]

theorem forall_mem_entriesOf {P : Token → Prop} :
    (∀ entry ∈ entriesOf axis tokens lead mode, P entry.2) ↔
      ∀ token ∈ axis.bucket tokens mode, P token :=
  List.forall_mem_map

theorem mem_entriesOf (hmode : mode ∈ axis.values) {name : String} {token : Token} :
    (name, token) ∈ entriesOf axis tokens lead mode ↔
      token ∈ tokens ∧ Takes mode lead name token := by
  rw [entriesOf, ModeAxis.bucket, if_pos hmode]
  simp only [List.mem_map, List.mem_filter, beq_iff_eq, entry, Prod.mk.injEq, Takes]
  constructor
  · rintro ⟨other, ⟨hmem, hbound⟩, hname, rfl⟩
    exact ⟨hmem, hbound, hname⟩
  · rintro ⟨hmem, hbound, hname⟩
    exact ⟨token, ⟨hmem, hbound⟩, hname, rfl⟩

theorem mem_of_mem_entriesOf {entry : String × Token}
    (hentry : entry ∈ entriesOf axis tokens lead mode) : entry.2 ∈ tokens := by
  obtain ⟨token, htoken, rfl⟩ := List.mem_map.1 hentry
  exact axis.bucket_subset tokens mode htoken

/-- A token of an axis stands under its own name or among those of its mode. -/
theorem mem_own_or_mem_entriesOf (axis : ModeAxis) (lead : Option String) {token : Token}
    (hmem : token ∈ tokens) :
    (axis.nameOf lead token, token) ∈
        (axis.unmoded tokens).map (fun token => (token.name, token)) ∨
      ∃ mode ∈ axis.values, (axis.nameOf lead token, token) ∈ entriesOf axis tokens lead mode := by
  rcases axis.mem_unmoded_or_mem_bucket lead hmem with ⟨hin, hname⟩ | ⟨mode, hmode, hin, hname⟩
  · exact .inl (List.mem_map.2 ⟨token, hin, by rw [hname]⟩)
  · exact .inr ⟨mode, hmode, List.mem_map.2 ⟨token, hin, by rw [hname, entry]⟩⟩

/-- The names of the tokens of one mode are those that they take. -/
theorem mem_keys_entriesOf (hmode : mode ∈ axis.values) {name : String} :
    name ∈ Entries.keys (entriesOf axis tokens lead mode) ↔ IsTaken mode lead tokens name := by
  rw [Entries.keys, List.mem_map]
  constructor
  · rintro ⟨⟨_, token⟩, hmem, rfl⟩
    exact ⟨token, (mem_entriesOf hmode).1 hmem⟩
  · rintro ⟨token, htoken⟩
    exact ⟨(name, token), (mem_entriesOf hmode).2 htoken, rfl⟩

end Mode

/-- The axis of a table has the names of its breakpoints, the first of the sorted table as
default. -/
theorem Breakpoint.exists_of_axis {table : List Breakpoint} {axis : ModeAxis}
    (haxis : Breakpoint.axis table = .ok axis) :
    ∃ base wider, ascending table = base :: wider ∧
      axis.values = (base :: wider).map Breakpoint.name ∧ axis.default = base.name := by
  rw [Breakpoint.axis] at haxis
  split at haxis
  · cases haxis
  · next base wider hsorted =>
      cases haxis
      exact ⟨base, wider, hsorted, rfl, rfl⟩

theorem Breakpoint.values_of_axis {table : List Breakpoint} {axis : ModeAxis}
    (haxis : Breakpoint.axis table = .ok axis) :
    axis.values = (ascending table).map Breakpoint.name := by
  obtain ⟨base, wider, hsorted, hvalues, -⟩ := exists_of_axis haxis
  rw [hvalues, hsorted]

/-- A table with a breakpoint has an axis. -/
theorem Breakpoint.exists_axis_eq_ok {table : List Breakpoint} (htable : table ≠ []) :
    ∃ axis, Breakpoint.axis table = .ok axis := by
  rw [Breakpoint.axis]
  split
  · next hempty =>
      have hperm := List.mergeSort_perm table fun a b => decide (a.rank ≤ b.rank)
      rw [← ascending, hempty] at hperm
      exact absurd hperm.symm.eq_nil htable
  · exact ⟨_, rfl⟩

end DesignTokens
