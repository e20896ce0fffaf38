import DesignTokens.Mode.Breakpoint
import DesignTokens.Proofs.Decimal.Order
import DesignTokens.Proofs.Mode.Names

/-!
# Thresholds of breakpoints

A table is sorted by the bits of its widths. These are never negative, so that the order
is the one of the widths as numbers, and the last breakpoint of a kind in the sorted
table is the widest one: among equally wide ones the last of the table.
-/

namespace DesignTokens

namespace Text

theorem isDigit_asciiDigit {c : Char} (hdigit : isDigit c) : (asciiDigit c).isDigit := by
  have hten : ∀ value ≤ 9, (Char.ofNat ('0'.toNat + value)).isDigit = true := by decide
  rw [isDigit, Option.isSome_iff_exists] at hdigit
  obtain ⟨value, hvalue⟩ := hdigit
  rw [asciiDigit, hvalue]
  apply hten
  obtain ⟨start, hstart, rfl⟩ := Option.map_eq_some_iff.1 hvalue
  have hrange := List.find?_some hstart
  simp only [Bool.and_eq_true, decide_eq_true_eq] at hrange
  omega

end Text

namespace Breakpoint

/-! ## Widths as numbers -/

theorem isUnsigned_pixels (breakpoint : Breakpoint) : Decimal.IsUnsigned breakpoint.pixels := by
  have hzero : Decimal.IsUnsigned 0.0 := Decimal.isUnsigned_ofScientific ..
  rw [pixels]
  split
  · next digits hamount =>
      rw [amount?] at hamount
      split at hamount
      · next number _ =>
          split at hamount
          · next hbare =>
              cases hamount
              rw [isBareNumber, Bool.and_eq_true, Option.any_eq_true] at hbare
              obtain ⟨⟨c, hhead, hdigit⟩, -⟩ := hbare
              obtain ⟨rest, hchars⟩ := List.head?_eq_some_iff.1 hhead
              rw [hchars, List.map_cons]
              cases hnumeral : Decimal.numeral?
                  (Text.asciiDigit c :: rest.map Text.asciiDigit) with
              | none => exact hzero
              | some x =>
                  exact Decimal.isUnsigned_of_numeral? (Text.isDigit_asciiDigit hdigit) hnumeral
          · cases hamount
      · cases hamount
  · exact hzero

theorem isDigit_or_of_isBareNumber {chars : List Char} (hbare : isBareNumber chars = true) :
    ∀ c ∈ chars, Text.isDigit c = true ∨ c = '.' := by
  intro c hc
  rw [isBareNumber, Bool.and_eq_true] at hbare
  rw [← List.takeWhile_append_dropWhile (p := Text.isDigit) (l := chars), List.mem_append] at hc
  rcases hc with hwhole | hafter
  · exact .inl (List.mem_takeWhile_imp hwhole)
  · split at hbare
    · next hnone => simp [hnone] at hafter
    · next fraction hfraction =>
        simp only [Bool.and_eq_true, List.all_eq_true] at hbare
        rw [hfraction, List.mem_cons] at hafter
        exact hafter.symm.imp (hbare.2.2 c) id
    · exact absurd hbare.2 (by simp)

/-- A pixel length stands on one line. -/
theorem newline_not_mem_of_amount? {chars : List Char} (hlength : (amount? chars).isSome) :
    '\n' ∉ chars := by
  intro hnewline
  rw [← List.mem_reverse] at hnewline
  rw [amount?] at hlength
  split at hlength
  · next number hnumber =>
      by_cases hbare : isBareNumber number.reverse = true
      · have hmem : '\n' ∈ number.reverse := by simpa [hnumber] using hnewline
        exact absurd (isDigit_or_of_isBareNumber hbare '\n' hmem) (by decide)
      · simp [hbare] at hlength
  · cases hlength

/-- The width at which a breakpoint starts. -/
noncomputable def threshold (breakpoint : Breakpoint) : WithTop ℝ :=
  Decimal.exactValue breakpoint.pixels

/-- The breakpoint starts at most at a width. -/
def IsReached (breakpoint : Breakpoint) (width : ℝ) : Prop :=
  breakpoint.threshold ≤ width

/-- Breakpoints are ranked by their thresholds. -/
theorem rank_le_rank_iff {a b : Breakpoint} : a.rank ≤ b.rank ↔ a.threshold ≤ b.threshold :=
  (Decimal.exactValue_le_iff a.isUnsigned_pixels b.isUnsigned_pixels).symm

theorem rank_lt_rank_iff {a b : Breakpoint} : a.rank < b.rank ↔ a.threshold < b.threshold := by
  rw [← not_le, ← not_le, rank_le_rank_iff]

/-! ## The sorted table -/

theorem rank_le_trans (a b c : Breakpoint) (hab : decide (a.rank ≤ b.rank) = true)
    (hbc : decide (b.rank ≤ c.rank) = true) : decide (a.rank ≤ c.rank) = true := by
  rw [decide_eq_true_eq] at *
  exact hab.trans hbc

theorem rank_le_total (a b : Breakpoint) :
    (decide (a.rank ≤ b.rank) || decide (b.rank ≤ a.rank)) = true := by
  simpa using Nat.le_total a.rank b.rank

theorem pairwise_ascending (table : List Breakpoint) :
    (ascending table).Pairwise fun a b => a.threshold ≤ b.threshold := by
  apply (List.pairwise_mergeSort rank_le_trans rank_le_total table).imp
  intro a b hab
  rw [← rank_le_rank_iff]
  exact of_decide_eq_true hab

/-- A breakpoint goes into a sorted table behind the narrower ones and before all others. -/
theorem exists_ascending_cons (first : Breakpoint) (table : List Breakpoint) :
    ∃ narrower others, ascending (first :: table) = narrower ++ first :: others ∧
      ascending table = narrower ++ others ∧
      (∀ other ∈ narrower, other.threshold < first.threshold) ∧
      ∀ other ∈ others, first.threshold ≤ other.threshold := by
  obtain ⟨narrower, others, hsorted, hrest, hnarrower⟩ :=
    List.mergeSort_cons rank_le_trans rank_le_total first table
  refine ⟨narrower, others, hsorted, hrest, ?_, ?_⟩
  · intro other hother
    rw [← rank_lt_rank_iff]
    simpa using hnarrower other hother
  · have hpairwise := pairwise_ascending (first :: table)
    rw [ascending, hsorted, List.pairwise_append, List.pairwise_cons] at hpairwise
    exact hpairwise.2.1.1

theorem mem_ascending {table : List Breakpoint} {breakpoint : Breakpoint} :
    breakpoint ∈ ascending table ↔ breakpoint ∈ table :=
  List.mem_mergeSort

variable {P : Breakpoint → Prop} {first breakpoint : Breakpoint} {table : List Breakpoint}

/-- The breakpoint is the widest one of a kind in a table, and the last among equally wide
ones. -/
def IsWidest (P : Breakpoint → Prop) (table : List Breakpoint) (breakpoint : Breakpoint) : Prop :=
  P breakpoint ∧ ∃ before after, table = before ++ breakpoint :: after ∧
    (∀ other ∈ before, P other → other.threshold ≤ breakpoint.threshold) ∧
    ∀ other ∈ after, P other → other.threshold < breakpoint.threshold

theorem IsWidest.mem (hwidest : IsWidest P table breakpoint) : breakpoint ∈ table := by
  obtain ⟨-, before, after, rfl, -⟩ := hwidest
  simp

theorem IsWidest.of_iff {Q : Breakpoint → Prop} (hwidest : IsWidest P table breakpoint)
    (hsame : ∀ other ∈ table, (P other ↔ Q other)) : IsWidest Q table breakpoint := by
  have hmem := hwidest.mem
  obtain ⟨hkind, before, after, rfl, hbefore, hafter⟩ := hwidest
  refine ⟨(hsame _ hmem).1 hkind, before, after, rfl, ?_, ?_⟩
  · intro other hother hQ
    exact hbefore other hother ((hsame other (List.mem_append_left _ hother)).2 hQ)
  · intro other hother hQ
    have hin : other ∈ before ++ breakpoint :: after := by simp [hother]
    exact hafter other hother ((hsame other hin).2 hQ)

/-- The breakpoint is the narrowest one of a table, and the first among equally narrow ones. -/
def IsNarrowest (table : List Breakpoint) (breakpoint : Breakpoint) : Prop :=
  ∃ before after, table = before ++ breakpoint :: after ∧
    (∀ other ∈ before, breakpoint.threshold < other.threshold) ∧
    ∀ other ∈ after, breakpoint.threshold ≤ other.threshold

theorem isWidest_cons_iff : IsWidest P (first :: table) breakpoint ↔
    (P first ∧ breakpoint = first ∧ ∀ other ∈ table, P other → other.threshold < first.threshold) ∨
      IsWidest P table breakpoint ∧ (P first → first.threshold ≤ breakpoint.threshold) := by
  constructor
  · rintro ⟨hkind, before, after, htable, hbefore, hafter⟩
    rcases List.cons_eq_append_iff.1 htable with ⟨rfl, hsame⟩ | ⟨others, rfl, rfl⟩
    · obtain ⟨rfl, rfl⟩ := List.cons.inj hsame
      exact .inl ⟨hkind, rfl, hafter⟩
    · rw [List.forall_mem_cons] at hbefore
      exact .inr ⟨⟨hkind, others, after, rfl, hbefore.2, hafter⟩, hbefore.1⟩
  · rintro (⟨hkind, rfl, hafter⟩ | ⟨⟨hkind, before, after, rfl, hbefore, hafter⟩, hfirst⟩)
    · exact ⟨hkind, [], table, rfl, by simp, hafter⟩
    · exact ⟨hkind, first :: before, after, rfl, List.forall_mem_cons.2 ⟨hfirst, hbefore⟩, hafter⟩

/-- The last breakpoint of a kind in the sorted table is the widest one. -/
theorem find?_reverse_ascending (p : Breakpoint → Bool) :
    (ascending table).reverse.find? p = some breakpoint ↔
      IsWidest (fun other => p other = true) table breakpoint := by
  induction table generalizing breakpoint with
  | nil => simp [ascending, IsWidest]
  | cons first table ih =>
      obtain ⟨narrower, others, hsorted, hrest, hnarrower, hothers⟩ :=
        exists_ascending_cons first table
      rw [hrest] at ih
      rw [isWidest_cons_iff, hsorted]
      simp only [List.reverse_append, List.reverse_cons, List.find?_append, List.append_assoc,
        List.singleton_append, List.find?_cons] at ih ⊢
      cases hfound : others.reverse.find? p with
      | some last =>
          have hlast : IsWidest (fun other => p other = true) table last :=
            ih.1 (by rw [hfound, Option.some_or])
          have hwider : first.threshold ≤ last.threshold :=
            hothers last (List.mem_reverse.1 (List.mem_of_find?_eq_some hfound))
          rw [hfound, Option.some_or] at ih
          rw [Option.some_or, ih]
          constructor
          · intro hwidest
            have hsame : last = breakpoint := Option.some_inj.1 (ih.2 hwidest)
            exact .inr ⟨hwidest, fun _ => hsame ▸ hwider⟩
          · rintro (⟨-, -, hnone⟩ | ⟨hwidest, -⟩)
            · exact absurd (hnone last hlast.mem hlast.1) (not_lt.2 hwider)
            · exact hwidest
      | none =>
          rw [hfound, Option.none_or] at ih
          rw [Option.none_or]
          cases hkind : p first with
          | false => simp [ih]
          | true =>
              have hnone : ∀ other ∈ table, p other = true → other.threshold < first.threshold := by
                intro other hother hp
                rw [← mem_ascending, hrest, List.mem_append] at hother
                apply hnarrower
                apply hother.resolve_right
                intro hin
                exact List.find?_eq_none.1 hfound other (List.mem_reverse.2 hin) hp
              constructor
              · intro hsame
                exact .inl ⟨rfl, (Option.some.inj hsame).symm, hnone⟩
              · rintro (⟨-, rfl, -⟩ | ⟨hwidest, hwider⟩)
                · rfl
                · exact absurd (hnone breakpoint hwidest.mem hwidest.1) (not_lt.2 (hwider rfl))

/-- The last result in the sorted table is that of the widest breakpoint that has one. -/
theorem findSome?_reverse_ascending {β : Type} {f : Breakpoint → Option β} {result : β} :
    (ascending table).reverse.findSome? f = some result ↔
      ∃ breakpoint, IsWidest (fun other => (f other).isSome = true) table breakpoint ∧
        f breakpoint = some result := by
  simp only [← find?_reverse_ascending]
  constructor
  · intro hfound
    obtain ⟨before, breakpoint, after, hlist, hresult, hnone⟩ :=
      List.findSome?_eq_some_iff.1 hfound
    refine ⟨breakpoint, ?_, hresult⟩
    rw [List.find?_eq_some_iff_append]
    exact ⟨by simp [hresult], before, after, hlist, by simpa using hnone⟩
  · rintro ⟨breakpoint, hfound, hresult⟩
    obtain ⟨-, before, after, hlist, hnone⟩ := List.find?_eq_some_iff_append.1 hfound
    rw [List.findSome?_eq_some_iff]
    exact ⟨before, breakpoint, after, hlist, hresult, by simpa using hnone⟩

theorem isNarrowest_cons_iff : IsNarrowest (first :: table) breakpoint ↔
    (breakpoint = first ∧ ∀ other ∈ table, first.threshold ≤ other.threshold) ∨
      IsNarrowest table breakpoint ∧ breakpoint.threshold < first.threshold := by
  constructor
  · rintro ⟨before, after, htable, hbefore, hafter⟩
    rcases List.cons_eq_append_iff.1 htable with ⟨rfl, hsame⟩ | ⟨others, rfl, rfl⟩
    · obtain ⟨rfl, rfl⟩ := List.cons.inj hsame
      exact .inl ⟨rfl, hafter⟩
    · rw [List.forall_mem_cons] at hbefore
      exact .inr ⟨⟨others, after, rfl, hbefore.2, hafter⟩, hbefore.1⟩
  · rintro (⟨rfl, hafter⟩ | ⟨⟨before, after, rfl, hbefore, hafter⟩, hfirst⟩)
    · exact ⟨[], table, rfl, by simp, hafter⟩
    · exact ⟨first :: before, after, rfl, List.forall_mem_cons.2 ⟨hfirst, hbefore⟩, hafter⟩

/-- The first breakpoint of the sorted table is the narrowest one. -/
theorem head?_ascending : (ascending table).head? = some breakpoint ↔
    IsNarrowest table breakpoint := by
  induction table generalizing breakpoint with
  | nil => simp [ascending, IsNarrowest]
  | cons first table ih =>
      obtain ⟨narrower, others, hsorted, hrest, hnarrower, hothers⟩ :=
        exists_ascending_cons first table
      have hmem : ∀ {other}, other ∈ table ↔ other ∈ narrower ++ others := by
        intro other
        rw [← hrest, mem_ascending]
      rw [isNarrowest_cons_iff, ← ih, hsorted, hrest]
      cases narrower with
      | nil =>
          constructor
          · intro hsame
            refine .inl ⟨(Option.some.inj hsame).symm, ?_⟩
            intro other hother
            exact hothers other (hmem.1 hother)
          · rintro (⟨rfl, -⟩ | ⟨hhead, hlower⟩)
            · rfl
            · exact absurd (hothers breakpoint (List.mem_of_head? hhead)) (not_le.2 hlower)
      | cons lowest narrower =>
          have hlower := hnarrower lowest List.mem_cons_self
          constructor
          · intro hsame
            exact .inr ⟨hsame, Option.some.inj hsame ▸ hlower⟩
          · rintro (⟨rfl, hlowest⟩ | ⟨hhead, -⟩)
            · exact absurd (hlowest lowest (hmem.2 List.mem_cons_self)) (not_le.2 hlower)
            · exact hhead

theorem IsNarrowest.mem (hnarrowest : IsNarrowest table breakpoint) : breakpoint ∈ table := by
  obtain ⟨before, after, rfl, -⟩ := hnarrowest
  simp

theorem IsNarrowest.unique {other : Breakpoint} (hnarrowest : IsNarrowest table breakpoint)
    (hother : IsNarrowest table other) : breakpoint = other := by
  rw [← head?_ascending] at hnarrowest hother
  exact Option.some.inj (hnarrowest.symm.trans hother)

/-- The default of the axis of a table is its narrowest breakpoint. -/
theorem exists_of_axis_eq_ok {axis : ModeAxis} (haxis : Breakpoint.axis table = .ok axis) :
    ∃ base, IsNarrowest table base ∧ axis.default = base.name := by
  obtain ⟨base, wider, hsorted, -, hdefault⟩ := exists_of_axis haxis
  exact ⟨base, head?_ascending.1 (by rw [hsorted, List.head?_cons]), hdefault⟩

end Breakpoint

end DesignTokens
