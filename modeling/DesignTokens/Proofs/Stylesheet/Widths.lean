import DesignTokens.Proofs.Stylesheet.Cascade

/-!
# The dimension of a width

Dimensions are declared in the root block, and those of every wider breakpoint once more
in a block of its own. A window of some width is given the dimension of the widest
breakpoint that it reaches and that has one.
-/

namespace DesignTokens.Stylesheet

open Breakpoint

variable {tokens : List Token} {dictionary : Dictionary} {options : RenderOptions}
  {axis : ModeAxis} {part : Part} {table : List Breakpoint} {place : Surroundings}
  {lead : Option String} {width : ℝ} {name : String} {token : Token}

/-- The token is bound to no breakpoint of a table. -/
def IsUnmoded (table : List Breakpoint) (token : Token) : Prop :=
  ∀ mode ∈ token.mode, mode ∉ table.map Breakpoint.name

/-- A breakpoint other than the narrowest one is reached at a width, and one of the tokens that
are bound to it takes the name. -/
structure IsWide (table : List Breakpoint) (lead : Option String) (tokens : List Token)
    (width : ℝ) (name : String) (breakpoint : Breakpoint) : Prop where
  wider : ¬ IsNarrowest table breakpoint
  reached : breakpoint.IsReached width
  taken : Mode.IsTaken breakpoint.name lead tokens name

/-- The token whose value a property has at a width: that of the widest breakpoint which is
reached and has one, else that of the narrowest breakpoint, else the last one that is bound to
no breakpoint. -/
inductive Wins (table : List Breakpoint) (lead : Option String) (tokens : List Token)
    (width : ℝ) (name : String) (token : Token) : Prop
  | wide (breakpoint : Breakpoint) :
      IsWidest (IsWide table lead tokens width name) table breakpoint →
      token ∈ tokens → Mode.Takes breakpoint.name lead name token →
      Wins table lead tokens width name token
  | base (narrowest : Breakpoint) :
      (∀ breakpoint ∈ table, ¬ IsWide table lead tokens width name breakpoint) →
      IsNarrowest table narrowest →
      token ∈ tokens → Mode.Takes narrowest.name lead name token →
      Wins table lead tokens width name token
  | own (narrowest : Breakpoint) (before after : List Token) :
      (∀ breakpoint ∈ table, ¬ IsWide table lead tokens width name breakpoint) →
      IsNarrowest table narrowest → ¬ Mode.IsTaken narrowest.name lead tokens name →
      tokens = before ++ token :: after → IsUnmoded table token → token.name = name →
      (∀ other ∈ after, IsUnmoded table other → other.name ≠ name) →
      Wins table lead tokens width name token

theorem Wins.mem (hwins : Wins table lead tokens width name token) : token ∈ tokens := by
  cases hwins with
  | wide _ _ hmem => exact hmem
  | base _ _ _ hmem => exact hmem
  | own _ _ _ _ _ _ htokens => simp [htokens]

theorem wins_iff_of_wide {wide : Breakpoint} (hmem : wide ∈ table)
    (hwide : IsWide table lead tokens width name wide) :
    Wins table lead tokens width name token ↔
      ∃ breakpoint, IsWidest (IsWide table lead tokens width name) table breakpoint ∧
        token ∈ tokens ∧ Mode.Takes breakpoint.name lead name token := by
  constructor
  · intro hwins
    cases hwins with
    | wide breakpoint hwidest hmem htakes => exact ⟨breakpoint, hwidest, hmem, htakes⟩
    | base _ hnone => exact absurd hwide (hnone wide hmem)
    | own _ _ _ hnone => exact absurd hwide (hnone wide hmem)
  · rintro ⟨breakpoint, hwidest, hmem, htakes⟩
    exact .wide breakpoint hwidest hmem htakes

section Narrow

variable {base : Breakpoint} (hbase : IsNarrowest table base)
  (hnone : ∀ breakpoint ∈ table, ¬ IsWide table lead tokens width name breakpoint)

include hbase hnone

theorem wins_iff_of_isTaken (htaken : Mode.IsTaken base.name lead tokens name) :
    Wins table lead tokens width name token ↔
      token ∈ tokens ∧ Mode.Takes base.name lead name token := by
  constructor
  · intro hwins
    cases hwins with
    | wide breakpoint hwidest => exact absurd hwidest.1 (hnone breakpoint hwidest.mem)
    | base narrowest _ hnarrowest hmem htakes =>
        rw [hbase.unique hnarrowest]
        exact ⟨hmem, htakes⟩
    | own narrowest _ _ _ hnarrowest hfree =>
        rw [← hbase.unique hnarrowest] at hfree
        exact absurd htaken hfree
  · rintro ⟨hmem, htakes⟩
    exact .base base hnone hbase hmem htakes

theorem wins_iff_of_not_isTaken (hfree : ¬ Mode.IsTaken base.name lead tokens name) :
    Wins table lead tokens width name token ↔
      ∃ before after, tokens = before ++ token :: after ∧ IsUnmoded table token ∧
        token.name = name ∧ ∀ other ∈ after, IsUnmoded table other → other.name ≠ name := by
  constructor
  · intro hwins
    cases hwins with
    | wide breakpoint hwidest => exact absurd hwidest.1 (hnone breakpoint hwidest.mem)
    | base narrowest _ hnarrowest hmem htakes =>
        rw [hbase.unique hnarrowest] at hfree
        exact absurd ⟨token, hmem, htakes⟩ hfree
    | own _ before after _ _ _ htokens hunmoded hname hlast =>
        exact ⟨before, after, htokens, hunmoded, hname, hlast⟩
  · rintro ⟨before, after, htokens, hunmoded, hname, hlast⟩
    exact .own base before after hnone hbase hfree htokens hunmoded hname hlast

end Narrow

/-! ## The winner as a search -/

/-- The token that the block of a breakpoint gives a name, if the block applies. -/
noncomputable def blockWinner? (axis : ModeAxis) (lead : Option String) (tokens : List Token)
    (width : ℝ) (name : String) (breakpoint : Breakpoint) : Option Token :=
  open Classical in
  if breakpoint.name ≠ axis.default ∧ breakpoint.IsReached width then
    Entries.last? (Mode.entriesOf axis tokens lead breakpoint.name) name
  else
    none

/-- The token that the last applicable declaration of a name shows. -/
noncomputable def winner? (table : List Breakpoint) (axis : ModeAxis) (lead : Option String)
    (tokens : List Token) (width : ℝ) (name : String) : Option Token :=
  ((ascending table).reverse.findSome? (blockWinner? axis lead tokens width name)).or
    ((Entries.last? (Mode.entriesOf axis tokens lead axis.default) name).or
      (Entries.last? ((axis.unmoded tokens).map fun token => (token.name, token)) name))

theorem cascaded?_blockOf (breakpoint : Breakpoint) :
    cascaded? ((blockOf options dictionary axis tokens breakpoint).flatMap (Item.applicable place))
        (custom name) =
      (blockWinner? axis options.lead tokens place.width name breakpoint).map
        (options.text dictionary) := by
  classical
  rw [blockOf_eq, blockWinner?]
  by_cases hdefault : breakpoint.name = axis.default
  · simp [hdefault, cascaded?, Entries.last?]
  rw [if_neg hdefault, applicable_mediaItems Surroundings.meets_minWidthCondition]
  by_cases hreached : breakpoint.IsReached place.width
  · rw [if_pos hreached, if_pos ⟨hdefault, hreached⟩, cascaded?_map_declaration]
  · rw [if_neg hreached, if_neg fun hboth => hreached hboth.2]
    rfl

theorem cascaded?_widthPartOf :
    cascaded? ((widthPartOf options dictionary axis tokens table).applicable place) (custom name) =
      (winner? table axis options.lead tokens place.width name).map (options.text dictionary) := by
  rw [Part.applicable, widthPartOf, cascaded?_append, List.flatMap_assoc, cascaded?_flatMap,
    cascaded?_map_declaration, Entries.last?_append]
  simp only [cascaded?_blockOf, winner?, Option.map_or, List.map_findSome?]
  rfl

section Search

variable (haxis : Breakpoint.axis table = .ok axis)
  (hnames : (table.map Breakpoint.name).Nodup)
  (hdistinct : ∀ mode ∈ axis.values, (Entries.keys (Mode.entriesOf axis tokens lead mode)).Nodup)

include haxis in
theorem mem_values_of_mem {breakpoint : Breakpoint} (hmem : breakpoint ∈ table) :
    breakpoint.name ∈ axis.values := by
  rw [values_of_axis haxis]
  exact List.mem_map_of_mem (mem_ascending.2 hmem)

include haxis hnames in
/-- The default of the axis is the name of the narrowest breakpoint and of no other one. -/
theorem name_eq_default_iff {breakpoint : Breakpoint} (hmem : breakpoint ∈ table) :
    breakpoint.name = axis.default ↔ IsNarrowest table breakpoint := by
  obtain ⟨base, hbase, hdefault⟩ := exists_of_axis_eq_ok haxis
  constructor
  · intro hname
    have hsame : breakpoint = base :=
      List.inj_on_of_nodup_map hnames hmem hbase.mem (hname.trans hdefault)
    rwa [hsame]
  · intro hnarrowest
    have hsame : breakpoint = base := hnarrowest.unique hbase
    rw [hsame, hdefault]

include haxis hnames in
theorem isSome_blockWinner?_iff {breakpoint : Breakpoint} (hmem : breakpoint ∈ table) :
    (blockWinner? axis lead tokens width name breakpoint).isSome ↔
      IsWide table lead tokens width name breakpoint := by
  have htaken : Mode.IsTaken breakpoint.name lead tokens name ↔
      (Entries.last? (Mode.entriesOf axis tokens lead breakpoint.name) name).isSome := by
    rw [← Mode.mem_keys_entriesOf (mem_values_of_mem haxis hmem), Option.isSome_iff_ne_none,
      ne_eq, Entries.last?_eq_none_iff, not_not]
  have hwider := not_congr (name_eq_default_iff haxis hnames hmem)
  rw [blockWinner?]
  split
  · next happlies =>
      rw [← htaken]
      exact ⟨fun hsome => ⟨hwider.1 happlies.1, happlies.2, hsome⟩, IsWide.taken⟩
  · next hnone =>
      constructor
      · intro hsome
        cases hsome
      · intro hwide
        exact absurd ⟨hwider.2 hwide.wider, hwide.reached⟩ hnone

include haxis hdistinct in
theorem takes_of_blockWinner? {breakpoint : Breakpoint} (hmem : breakpoint ∈ table) :
    blockWinner? axis lead tokens width name breakpoint = some token ↔
      (blockWinner? axis lead tokens width name breakpoint).isSome ∧
        token ∈ tokens ∧ Mode.Takes breakpoint.name lead name token := by
  have hvalue := mem_values_of_mem haxis hmem
  rw [blockWinner?]
  split
  · rw [Entries.last?_eq_some_iff_mem (hdistinct _ hvalue), Mode.mem_entriesOf hvalue]
    constructor
    · intro htoken
      refine ⟨?_, htoken⟩
      rw [Option.isSome_iff_ne_none, ne_eq, Entries.last?_eq_none_iff, not_not,
        Mode.mem_keys_entriesOf hvalue]
      exact ⟨token, htoken⟩
    · exact And.right
  · simp

include haxis hnames hdistinct in
/-- The last block that applies and has the name is that of the widest breakpoint. -/
theorem findSome?_blockWinner?_eq_some_iff :
    (ascending table).reverse.findSome? (blockWinner? axis lead tokens width name) = some token ↔
      ∃ breakpoint, IsWidest (IsWide table lead tokens width name) table breakpoint ∧
        token ∈ tokens ∧ Mode.Takes breakpoint.name lead name token := by
  have hkind : ∀ breakpoint ∈ table,
      ((blockWinner? axis lead tokens width name breakpoint).isSome = true ↔
        IsWide table lead tokens width name breakpoint) :=
    fun _ => isSome_blockWinner?_iff haxis hnames
  have hwidest : ∀ {breakpoint}, IsWidest
      (fun other => (blockWinner? axis lead tokens width name other).isSome = true)
        table breakpoint ↔ IsWidest (IsWide table lead tokens width name) table breakpoint :=
    ⟨fun h => h.of_iff hkind, fun h => h.of_iff fun other hother => (hkind other hother).symm⟩
  rw [findSome?_reverse_ascending]
  apply exists_congr
  intro breakpoint
  rw [hwidest]
  apply and_congr_right
  intro hbreakpoint
  rw [takes_of_blockWinner? haxis hdistinct hbreakpoint.mem, hkind _ hbreakpoint.mem]
  exact and_iff_right hbreakpoint.1

include haxis hnames in
theorem findSome?_blockWinner?_eq_none_iff :
    (ascending table).reverse.findSome? (blockWinner? axis lead tokens width name) = none ↔
      ∀ breakpoint ∈ table, ¬ IsWide table lead tokens width name breakpoint := by
  rw [List.findSome?_eq_none_iff]
  simp only [List.mem_reverse, mem_ascending]
  apply forall₂_congr
  intro breakpoint hmem
  rw [← isSome_blockWinner?_iff haxis hnames hmem, Option.not_isSome_iff_eq_none]

include hdistinct in
theorem last?_base_eq_some_iff {base : Breakpoint} (hdefault : axis.default = base.name) :
    Entries.last? (Mode.entriesOf axis tokens lead axis.default) name = some token ↔
      token ∈ tokens ∧ Mode.Takes base.name lead name token := by
  rw [Entries.last?_eq_some_iff_mem (hdistinct _ axis.default_mem),
    Mode.mem_entriesOf axis.default_mem, hdefault]

theorem last?_base_eq_none_iff {base : Breakpoint} (hdefault : axis.default = base.name) :
    Entries.last? (Mode.entriesOf axis tokens lead axis.default) name = none ↔
      ¬ Mode.IsTaken base.name lead tokens name := by
  rw [Entries.last?_eq_none_iff, Mode.mem_keys_entriesOf axis.default_mem, hdefault]

include haxis in
theorem isUnmoded_iff {token : Token} : IsUnmoded table token ↔
    (!token.mode.any fun mode => axis.values.contains mode) = true := by
  rw [IsUnmoded, values_of_axis haxis]
  cases token.mode with
  | none => simp
  | some mode => simp [mem_ascending]

include haxis in
theorem last?_own_eq_some_iff :
    Entries.last? ((axis.unmoded tokens).map fun token => (token.name, token)) name = some token ↔
      ∃ before after, tokens = before ++ token :: after ∧ IsUnmoded table token ∧
        token.name = name ∧ ∀ other ∈ after, IsUnmoded table other → other.name ≠ name := by
  simp only [isUnmoded_iff haxis]
  exact Entries.last?_filter_eq_some_iff

include haxis hnames hdistinct in
/-- The last declaration that applies shows the token that wins. -/
theorem winner?_eq_some_iff :
    winner? table axis lead tokens width name = some token ↔
      Wins table lead tokens width name token := by
  obtain ⟨base, hbase, hdefault⟩ := exists_of_axis_eq_ok haxis
  rw [winner?]
  cases hblock : (ascending table).reverse.findSome?
      (blockWinner? axis lead tokens width name) with
  | some winner =>
      obtain ⟨wide, hwidest, -⟩ :=
        (findSome?_blockWinner?_eq_some_iff haxis hnames hdistinct).1 hblock
      rw [Option.some_or, ← hblock, findSome?_blockWinner?_eq_some_iff haxis hnames hdistinct,
        wins_iff_of_wide hwidest.mem hwidest.1]
  | none =>
      have hnone := (findSome?_blockWinner?_eq_none_iff haxis hnames).1 hblock
      rw [Option.none_or]
      cases hroot : Entries.last? (Mode.entriesOf axis tokens lead axis.default) name with
      | some winner =>
          have htaken := (last?_base_eq_some_iff hdistinct hdefault).1 hroot
          rw [Option.some_or, ← hroot, last?_base_eq_some_iff hdistinct hdefault,
            wins_iff_of_isTaken hbase hnone ⟨winner, htaken⟩]
      | none =>
          have hfree := (last?_base_eq_none_iff hdefault).1 hroot
          rw [Option.none_or, last?_own_eq_some_iff haxis,
            wins_iff_of_not_isTaken hbase hnone hfree]

end Search

/-- A property has the value of the token that wins at the width of the window, and no value
if none does. -/
theorem cascaded?_widthPart (hnames : (table.map Breakpoint.name).Nodup)
    (hpart : (widthPart tokens dictionary options table).result = .ok part) (place : Surroundings)
    (name value : String) :
    cascaded? (part.applicable place) (custom name) = some value ↔
      ∃ token, Wins table options.lead (dimensionsOf tokens) place.width name token ∧
        (options.value token dictionary).result = .ok value := by
  obtain ⟨axis, haxis, hrenders, hdistinct, rfl⟩ := widthPart_eq_ok.1 hpart
  rw [cascaded?_widthPartOf, Option.map_eq_some_iff]
  apply exists_congr
  intro token
  rw [winner?_eq_some_iff haxis hnames hdistinct]
  apply and_congr_right
  intro hwins
  rw [RenderOptions.value_eq_ok, eq_comm]
  exact (and_iff_right (hrenders token hwins.mem)).symm

/-! ### A gap for every window, for small and for wider ones -/

def small : Breakpoint := ⟨"small", "460px"⟩

def medium : Breakpoint := ⟨"medium", "620px"⟩

def mediumGap : Token :=
  ⟨["medium", "gap"], "medium-gap", some "dimension", .text "16px", .text "16px", some "medium",
    none, [], none⟩

def gaps : Dictionary where
  tokens :=
    [⟨["gap"], "gap", some "dimension", .text "4px", .text "4px", none, none, [], none⟩,
      ⟨["small", "gap"], "small-gap", some "dimension", .text "8px", .text "8px", some "small",
        none, [], none⟩, mediumGap]
  nodup_paths := by decide

theorem small_lt_medium : small.threshold < medium.threshold := by
  rw [← rank_lt_rank_iff]
  decide +kernel

theorem threshold_medium : medium.threshold = (620 : ℝ) := by
  have hpixels : Decimal.Dyadic.ofFloat? medium.pixels = some ⟨false, 5453577673768960, -43⟩ := by
    decide +kernel
  rw [threshold, Decimal.exactValue, hpixels]
  norm_num [Decimal.Dyadic.toReal]

theorem axis_small_medium :
    Breakpoint.axis [small, medium] =
      .ok ⟨"dimension", ["small", "medium"], "small", by decide⟩ := by
  have hsorted : ascending [small, medium] = [small, medium] :=
    List.mergeSort_of_pairwise (by decide +kernel)
  rw [Breakpoint.axis, hsorted]
  rfl

theorem dimensionsOf_gaps : dimensionsOf gaps.tokens = gaps.tokens := rfl

theorem exists_widthPart_gaps : ∃ part,
    (widthPart gaps.tokens gaps {} [small, medium]).result = .ok part := by
  refine ⟨_, widthPart_eq_ok.2 ⟨_, axis_small_medium, ?_, by decide +kernel, rfl⟩⟩
  rw [dimensionsOf_gaps, gaps]
  simp only [List.forall_mem_cons]
  exact ⟨⟨"4px", rfl⟩, ⟨"8px", rfl⟩, ⟨"16px", rfl⟩, by simp⟩

theorem wins_mediumGap :
    Wins [small, medium] none (dimensionsOf gaps.tokens) 700 "gap" mediumGap := by
  have hwider : ¬ IsNarrowest [small, medium] medium := by
    intro hnarrowest
    have hsmall : IsNarrowest [small, medium] small := by
      refine ⟨[], [medium], rfl, by simp, ?_⟩
      simpa using small_lt_medium.le
    exact absurd (hnarrowest.unique hsmall) (by decide)
  have hreached : medium.IsReached 700 := by
    rw [IsReached, threshold_medium, WithTop.coe_le_coe]
    norm_num
  have hmem : mediumGap ∈ dimensionsOf gaps.tokens := by
    rw [dimensionsOf_gaps]
    simp [gaps]
  have htakes : Mode.Takes medium.name none "gap" mediumGap := by decide
  refine .wide medium ⟨⟨hwider, hreached, mediumGap, hmem, htakes⟩, [small], [], rfl, ?_, ?_⟩
    hmem htakes
  · simpa using fun _ => small_lt_medium.le
  · simp

theorem cascaded?_widthPart_gaps : ∃ part,
    (widthPart gaps.tokens gaps {} [small, medium]).result = .ok part ∧
      ([small, medium].map Breakpoint.name).Nodup ∧
      cascaded? (part.applicable ⟨.light, 700⟩) (custom "gap") = some "16px" := by
  obtain ⟨part, hpart⟩ := exists_widthPart_gaps
  have hnames : ([small, medium].map Breakpoint.name).Nodup := by decide
  exact ⟨part, hpart, hnames, (cascaded?_widthPart hnames hpart ⟨.light, 700⟩ "gap" "16px").2
    ⟨mediumGap, wins_mediumGap, rfl⟩⟩

end DesignTokens.Stylesheet
