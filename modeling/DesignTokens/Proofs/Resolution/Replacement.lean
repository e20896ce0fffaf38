import DesignTokens.Proofs.Reference.Grammar
import DesignTokens.Resolution

/-!
# What replacing references means

The relation between an authored value and its resolved form, said without any order
of evaluation: `lookup` gives the value of every token, and each reference is replaced
on its own. Nothing here knows of memory, chains or errors; the search through the
tokens is shown elsewhere to reach exactly such values.
-/

namespace DesignTokens.Reference

/-- Text with each of its references replaced by the text of the value it names. At
every place a reference is taken if one begins there, and a character is kept if
not. -/
inductive Expanded (lookup : TokenPath → Option Value) : List Char → List Char → Prop
  | nil : Expanded lookup [] []
  | reference {inner rest out : List Char} {value : Value} (hinner : IsInner inner)
      (hvalue : lookup (path (target inner)) = some value)
      (hrest : Expanded lookup rest out) :
      Expanded lookup ('\x7b' :: inner ++ '\x7d' :: rest) (value.embedded.toList ++ out)
  | kept {c : Char} {rest out : List Char} (hplain : ¬ Begins (c :: rest))
      (hrest : Expanded lookup rest out) : Expanded lookup (c :: rest) (c :: out)

namespace Expanded

variable {lookup : TokenPath → Option Value}

theorem mono {later : TokenPath → Option Value}
    (hlater : ∀ path value, lookup path = some value → later path = some value)
    {chars out : List Char} (hexpanded : Expanded lookup chars out) :
    Expanded later chars out := by
  induction hexpanded with
  | nil => exact .nil
  | reference hinner hvalue _ ih => exact .reference hinner (hlater _ _ hvalue) ih
  | kept hplain _ ih => exact .kept hplain ih

theorem append_plain (plain : List Char) (hplain : '\x7b' ∉ plain) {chars out : List Char}
    (hexpanded : Expanded lookup chars out) : Expanded lookup (plain ++ chars) (plain ++ out) := by
  induction plain with
  | nil => exact hexpanded
  | cons c plain ih =>
      simp only [List.mem_cons, not_or] at hplain
      exact .kept (not_begins_cons (Ne.symm hplain.1) _) (ih hplain.2)

theorem of_no_close (chars : List Char) (hclose : '\x7d' ∉ chars) :
    Expanded lookup chars chars := by
  induction chars with
  | nil => exact .nil
  | cons c rest ih =>
      refine .kept (not_begins_of_no_close hclose) (ih fun hmem => hclose ?_)
      exact List.mem_cons_of_mem c hmem

/-- Every reference in a text that could be expanded names a value. -/
theorem exists_of_mem {chars out : List Char} (hexpanded : Expanded lookup chars out)
    {reference : String} (hmem : reference ∈ (Piece.scan none chars).filterMap Piece.target?) :
    ∃ value, lookup (path reference) = some value := by
  induction hexpanded with
  | nil => simp [Piece.scan] at hmem
  | reference hinner hvalue _ ih =>
      rw [Piece.scan_begins hinner] at hmem
      simp only [List.filterMap_cons, Piece.target?, List.mem_cons] at hmem
      rcases hmem with rfl | hmem
      · exact ⟨_, hvalue⟩
      · exact ih hmem
  | kept hplain _ ih =>
      rw [Piece.targets_scan_of_not_begins hplain] at hmem
      exact ih hmem

/-- Text without references is kept as it is. -/
theorem eq_self {chars out : List Char} (hexpanded : Expanded lookup chars out)
    (hplain : (Piece.scan none chars).filterMap Piece.target? = []) : out = chars := by
  induction hexpanded with
  | nil => rfl
  | reference hinner _ _ _ =>
      rw [Piece.scan_begins hinner] at hplain
      simp [Piece.target?] at hplain
  | kept hbegins _ ih => rw [ih (by rwa [Piece.targets_scan_of_not_begins hbegins] at hplain)]

end Expanded

end DesignTokens.Reference

namespace DesignTokens.Piece

open Reference

/-- Pieces joined after each reference was replaced by the text of the value it
names. -/
inductive Joined (lookup : TokenPath → Option Value) : List Piece → List Char → Prop
  | nil : Joined lookup [] []
  | plain {chars out : List Char} {rest : List Piece} (hrest : Joined lookup rest out) :
      Joined lookup (.plain chars :: rest) (chars ++ out)
  | reference {inner out : List Char} {rest : List Piece} {value : Value}
      (hvalue : lookup (path (target inner)) = some value) (hrest : Joined lookup rest out) :
      Joined lookup (.reference inner :: rest) (value.embedded.toList ++ out)

variable {lookup : TokenPath → Option Value}

theorem Joined.mono {later : TokenPath → Option Value}
    (hlater : ∀ path value, lookup path = some value → later path = some value)
    {pieces : List Piece} {out : List Char} (hjoined : Joined lookup pieces out) :
    Joined later pieces out := by
  induction hjoined with
  | nil => exact .nil
  | plain _ ih => exact .plain ih
  | reference hvalue _ ih => exact .reference (hlater _ _ hvalue) ih

/-- Joining the pieces of a text expands the text; `pending` holds the characters since
an opening brace, as in the scanner. -/
theorem Joined.expanded (pending : Option (List Char)) {chars out : List Char}
    (hpending : ∀ held ∈ pending, '\x7b' ∉ held ∧ '\x7d' ∉ held)
    (hjoined : Joined lookup (scan pending chars) out) :
    Expanded lookup ((pending.elim [] fun held => '\x7b' :: held.reverse) ++ chars) out := by
  induction chars generalizing pending out with
  | nil =>
      cases pending with
      | none =>
          cases hjoined
          exact .nil
      | some held =>
          obtain ⟨-, hnoClose⟩ := hpending held rfl
          obtain - | ⟨⟨⟩⟩ := hjoined
          simpa using Expanded.of_no_close ('\x7b' :: held.reverse) (by simp [hnoClose])
  | cons c rest ih =>
      cases pending with
      | none =>
          by_cases hopen : c = '\x7b'
          · subst hopen
            exact ih (some []) (by simp) (by simpa [scan] using hjoined)
          · rw [scan, if_neg hopen] at hjoined
            obtain - | hrest := hjoined
            exact .kept (not_begins_cons hopen _) (ih none (by simp) hrest)
      | some held =>
          obtain ⟨hnoOpen, hnoClose⟩ := hpending held rfl
          by_cases hopen : c = '\x7b'
          · subst hopen
            rw [scan, if_pos rfl] at hjoined
            obtain - | hrest := hjoined
            have hheld : '\x7b' ∉ held.reverse ∧ '\x7d' ∉ held.reverse := by
              simpa using ⟨hnoOpen, hnoClose⟩
            have hnext := ih (some []) (by simp) hrest
            exact .kept (not_begins_reopened hheld _) (hnext.append_plain _ hheld.1)
          by_cases hclose : c = '\x7d'
          · subst hclose
            cases held with
            | nil =>
                rw [scan, if_neg (by decide), if_pos rfl, if_pos List.isEmpty_nil] at hjoined
                obtain - | hrest := hjoined
                have hnext := (ih none (by simp) hrest).append_plain ['\x7d'] (by decide)
                exact .kept (not_begins_empty _) hnext
            | cons h t =>
                rw [scan, if_neg (by decide), if_pos rfl, if_neg (by simp)] at hjoined
                obtain - | - | ⟨hvalue, hrest⟩ := hjoined
                have hinner := isInner_reverse (by simp) ⟨hnoOpen, hnoClose⟩
                simpa using Expanded.reference hinner hvalue (ih none (by simp) hrest)
          · rw [scan, if_neg hopen, if_neg hclose] at hjoined
            have hheld : ∀ inner ∈ some (c :: held), '\x7b' ∉ inner ∧ '\x7d' ∉ inner := by
              rintro _ ⟨⟩
              simp [Ne.symm hopen, Ne.symm hclose, hnoOpen, hnoClose]
            have hnext := ih (some (c :: held)) hheld hjoined
            simpa using hnext

end DesignTokens.Piece

namespace DesignTokens.Value

open Reference

mutual

/-- `value` is `authored` with every reference replaced, at every depth: an alias by the
value of the token it names, a reference inside longer text by the text of that value.
All else is as authored. -/
def Replaced (lookup : TokenPath → Option Value) : Value → Value → Prop
  | .text s, value =>
    (∃ reference, IsAlias s reference ∧ lookup (path reference) = some value) ∨
      (∀ reference, ¬ IsAlias s reference) ∧
        ∃ out, Expanded lookup s.toList out ∧ value = .text (String.ofList out)
  | .list items, value => ∃ values, value = .list values ∧ ItemsReplaced lookup items values
  | .object entries, value =>
    ∃ values, value = .object values ∧ EntriesReplaced lookup entries values
  | authored, value => value = authored
termination_by structural authored => authored

def ItemsReplaced (lookup : TokenPath → Option Value) : List Value → List Value → Prop
  | [], values => values = []
  | item :: rest, values => ∃ first others, values = first :: others ∧
      Replaced lookup item first ∧ ItemsReplaced lookup rest others
termination_by structural items => items

def EntriesReplaced (lookup : TokenPath → Option Value) : List (String × Value) → Object → Prop
  | [], values => values = []
  | (key, value) :: rest, values => ∃ first others, values = (key, first) :: others ∧
      Replaced lookup value first ∧ EntriesReplaced lookup rest others
termination_by structural entries => entries

end

mutual

/-- Values that are found stay found, so what was replaced stays replaced. -/
theorem Replaced.mono {lookup later : TokenPath → Option Value}
    (hlater : ∀ path value, lookup path = some value → later path = some value)
    (authored : Value) {value : Value} (hreplaced : Replaced lookup authored value) :
    Replaced later authored value := by
  cases authored with
  | text s =>
      rcases hreplaced with ⟨reference, halias, hvalue⟩ | ⟨hplain, out, hout, hvalue⟩
      · exact .inl ⟨reference, halias, hlater _ _ hvalue⟩
      · exact .inr ⟨hplain, out, hout.mono hlater, hvalue⟩
  | list items =>
      obtain ⟨values, hvalue, hitems⟩ := hreplaced
      exact ⟨values, hvalue, ItemsReplaced.mono hlater items hitems⟩
  | object entries =>
      obtain ⟨values, hvalue, hentries⟩ := hreplaced
      exact ⟨values, hvalue, EntriesReplaced.mono hlater entries hentries⟩
  | _ => exact hreplaced
termination_by structural authored

theorem ItemsReplaced.mono {lookup later : TokenPath → Option Value}
    (hlater : ∀ path value, lookup path = some value → later path = some value)
    (items : List Value) {values : List Value} (hreplaced : ItemsReplaced lookup items values) :
    ItemsReplaced later items values := by
  cases items with
  | nil => exact hreplaced
  | cons item rest =>
      obtain ⟨first, others, hvalues, hfirst, hothers⟩ := hreplaced
      exact ⟨first, others, hvalues, Replaced.mono hlater item hfirst,
        ItemsReplaced.mono hlater rest hothers⟩
termination_by structural items

theorem EntriesReplaced.mono {lookup later : TokenPath → Option Value}
    (hlater : ∀ path value, lookup path = some value → later path = some value)
    (entries : List (String × Value)) {values : Object}
    (hreplaced : EntriesReplaced lookup entries values) :
    EntriesReplaced later entries values := by
  cases entries with
  | nil => exact hreplaced
  | cons entry rest =>
      obtain ⟨first, others, hvalues, hfirst, hothers⟩ := hreplaced
      exact ⟨first, others, hvalues, Replaced.mono hlater entry.2 hfirst,
        EntriesReplaced.mono hlater rest hothers⟩
termination_by structural entries

end

mutual

/-- Every reference inside a value that could be replaced names a value. -/
theorem Replaced.exists_of_mem {lookup : TokenPath → Option Value} (authored : Value)
    {value : Value} (hreplaced : Replaced lookup authored value) {reference : String}
    (hmem : reference ∈ authored.references) : ∃ found, lookup (path reference) = some found := by
  cases authored with
  | text s =>
      rcases hreplaced with ⟨_, halias, hvalue⟩ | ⟨-, out, hout, -⟩
      · rw [references, targets_of_alias? (alias?_eq_some_iff.2 halias)] at hmem
        exact ⟨value, by rwa [List.mem_singleton.1 hmem]⟩
      · exact hout.exists_of_mem hmem
  | list items =>
      obtain ⟨values, -, hitems⟩ := hreplaced
      exact ItemsReplaced.exists_of_mem items hitems hmem
  | object entries =>
      obtain ⟨values, -, hentries⟩ := hreplaced
      exact EntriesReplaced.exists_of_mem entries hentries hmem
  | _ => simp [references] at hmem
termination_by structural authored

theorem ItemsReplaced.exists_of_mem {lookup : TokenPath → Option Value} (items : List Value)
    {values : List Value} (hreplaced : ItemsReplaced lookup items values) {reference : String}
    (hmem : reference ∈ itemReferences items) : ∃ found, lookup (path reference) = some found := by
  cases items with
  | nil => simp [itemReferences] at hmem
  | cons item rest =>
      obtain ⟨first, others, -, hfirst, hothers⟩ := hreplaced
      rw [itemReferences, List.mem_append] at hmem
      rcases hmem with hmem | hmem
      · exact Replaced.exists_of_mem item hfirst hmem
      · exact ItemsReplaced.exists_of_mem rest hothers hmem
termination_by structural items

theorem EntriesReplaced.exists_of_mem {lookup : TokenPath → Option Value}
    (entries : List (String × Value)) {values : Object}
    (hreplaced : EntriesReplaced lookup entries values) {reference : String}
    (hmem : reference ∈ entryReferences entries) :
    ∃ found, lookup (path reference) = some found := by
  cases entries with
  | nil => simp [entryReferences] at hmem
  | cons entry rest =>
      obtain ⟨first, others, -, hfirst, hothers⟩ := hreplaced
      rw [entryReferences, List.mem_append] at hmem
      rcases hmem with hmem | hmem
      · exact Replaced.exists_of_mem entry.2 hfirst hmem
      · exact EntriesReplaced.exists_of_mem rest hothers hmem
termination_by structural entries

end

mutual

/-- A value without references is its own resolved form. -/
theorem Replaced.eq_self {lookup : TokenPath → Option Value} (authored : Value) {value : Value}
    (hreplaced : Replaced lookup authored value) (hplain : authored.references = []) :
    value = authored := by
  cases authored with
  | text s =>
      rw [references, Reference.targets] at hplain
      rcases hreplaced with ⟨_, halias, -⟩ | ⟨-, out, hout, rfl⟩
      · rw [← Reference.targets, targets_of_alias? (alias?_eq_some_iff.2 halias)] at hplain
        cases hplain
      · rw [hout.eq_self hplain, String.ofList_toList]
  | list items =>
      obtain ⟨values, rfl, hitems⟩ := hreplaced
      rw [ItemsReplaced.eq_self items hitems hplain]
  | object entries =>
      obtain ⟨values, rfl, hentries⟩ := hreplaced
      rw [EntriesReplaced.eq_self entries hentries hplain]
  | _ => exact hreplaced
termination_by structural authored

theorem ItemsReplaced.eq_self {lookup : TokenPath → Option Value} (items : List Value)
    {values : List Value} (hreplaced : ItemsReplaced lookup items values)
    (hplain : itemReferences items = []) : values = items := by
  cases items with
  | nil => exact hreplaced
  | cons item rest =>
      obtain ⟨first, others, rfl, hfirst, hothers⟩ := hreplaced
      obtain ⟨hplainFirst, hplainRest⟩ := List.append_eq_nil_iff.1 hplain
      rw [Replaced.eq_self item hfirst hplainFirst, ItemsReplaced.eq_self rest hothers hplainRest]
termination_by structural items

theorem EntriesReplaced.eq_self {lookup : TokenPath → Option Value}
    (entries : List (String × Value)) {values : Object}
    (hreplaced : EntriesReplaced lookup entries values) (hplain : entryReferences entries = []) :
    values = entries := by
  cases entries with
  | nil => exact hreplaced
  | cons entry rest =>
      obtain ⟨first, others, rfl, hfirst, hothers⟩ := hreplaced
      obtain ⟨hplainFirst, hplainRest⟩ := List.append_eq_nil_iff.1 hplain
      rw [Replaced.eq_self entry.2 hfirst hplainFirst,
        EntriesReplaced.eq_self rest hothers hplainRest]
termination_by structural entries

end

end DesignTokens.Value
