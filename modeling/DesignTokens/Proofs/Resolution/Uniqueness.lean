import DesignTokens.Proofs.Resolution.FixedPoint

/-!
# One value for each token

A value and what the references in it stand for leave one resolved form only. So a token
keeps its value when tokens are added or put in another order: the values of the smaller
list were found in some order, and along it each is the one that the larger list has too.
-/

namespace DesignTokens.Reference

variable {lookup : TokenPath → Option Value}

theorem IsInner.append_inj {inner other : List Char} (hinner : IsInner inner)
    (hother : IsInner other) {rest others : List Char}
    (heq : '\x7b' :: inner ++ '\x7d' :: rest = '\x7b' :: other ++ '\x7d' :: others) :
    inner = other ∧ rest = others := by
  have htail : inner ++ '\x7d' :: rest = other ++ '\x7d' :: others := by simpa using heq
  have hbrace := append_brace_inj ⟨hinner.no_open, hinner.no_close⟩
    ⟨hother.no_open, hother.no_close⟩ (.inr rfl) (.inr rfl) htail
  exact ⟨hbrace.1, hbrace.2.2⟩

theorem IsAlias.unique {text reference other : String} (hreference : IsAlias text reference)
    (hother : IsAlias text other) : reference = other := by
  rw [← alias?_eq_some_iff] at hreference hother
  simpa [hreference] using hother

/-- A text is expanded in one way. -/
theorem Expanded.unique {chars out other : List Char} (hout : Expanded lookup chars out)
    (hother : Expanded lookup chars other) : out = other := by
  induction hout generalizing other with
  | nil =>
      cases hother
      rfl
  | @reference inner rest out value hinner hvalue _ ih =>
      generalize hchars : '\x7b' :: inner ++ '\x7d' :: rest = chars at hother
      cases hother with
      | nil => simp at hchars
      | @reference found later others foundValue hfound hfoundValue hlater =>
          obtain ⟨rfl, rfl⟩ := hinner.append_inj hfound hchars
          obtain rfl : value = foundValue := by simpa [hvalue] using hfoundValue
          rw [ih hlater]
      | kept hplain _ => exact absurd ⟨inner, rest, hinner, hchars.symm⟩ hplain
  | @kept c rest out hplain _ ih =>
      generalize hchars : c :: rest = chars at hother
      cases hother with
      | nil => simp at hchars
      | @reference inner later _ _ hinner _ _ => exact absurd ⟨inner, later, hinner, hchars⟩ hplain
      | kept _ hlater =>
          obtain ⟨rfl, rfl⟩ := List.cons.inj hchars
          rw [ih hlater]

end DesignTokens.Reference

namespace DesignTokens.Value

variable {lookup : TokenPath → Option Value}

mutual

/-- A value has one resolved form. -/
theorem Replaced.unique (authored : Value) {value other : Value}
    (hvalue : Replaced lookup authored value) (hother : Replaced lookup authored other) :
    value = other := by
  cases authored with
  | text s =>
      rcases hvalue with ⟨reference, halias, hfound⟩ | ⟨hplain, out, hout, rfl⟩
      · rcases hother with ⟨second, hsecond, hother⟩ | ⟨hplain, -⟩
        · rw [halias.unique hsecond] at hfound
          simpa [hfound] using hother
        · exact absurd halias (hplain reference)
      · rcases hother with ⟨reference, halias, -⟩ | ⟨-, others, hothers, rfl⟩
        · exact absurd halias (hplain reference)
        · rw [hout.unique hothers]
  | list items =>
      obtain ⟨values, rfl, hvalues⟩ := hvalue
      obtain ⟨others, rfl, hothers⟩ := hother
      rw [ItemsReplaced.unique items hvalues hothers]
  | object entries =>
      obtain ⟨values, rfl, hvalues⟩ := hvalue
      obtain ⟨others, rfl, hothers⟩ := hother
      rw [EntriesReplaced.unique entries hvalues hothers]
  | _ => exact Eq.trans hvalue (Eq.symm hother)
termination_by structural authored

theorem ItemsReplaced.unique (items : List Value) {values others : List Value}
    (hvalues : ItemsReplaced lookup items values) (hothers : ItemsReplaced lookup items others) :
    values = others := by
  cases items with
  | nil => exact Eq.trans hvalues (Eq.symm hothers)
  | cons item rest =>
      obtain ⟨first, later, rfl, hfirst, hlater⟩ := hvalues
      obtain ⟨second, last, rfl, hsecond, hlast⟩ := hothers
      rw [Replaced.unique item hfirst hsecond, ItemsReplaced.unique rest hlater hlast]
termination_by structural items

theorem EntriesReplaced.unique (entries : List (String × Value)) {values others : Object}
    (hvalues : EntriesReplaced lookup entries values)
    (hothers : EntriesReplaced lookup entries others) : values = others := by
  cases entries with
  | nil => exact Eq.trans hvalues (Eq.symm hothers)
  | cons entry rest =>
      obtain ⟨first, later, rfl, hfirst, hlater⟩ := hvalues
      obtain ⟨second, last, rfl, hsecond, hlast⟩ := hothers
      rw [Replaced.unique entry.2 hfirst hsecond, EntriesReplaced.unique rest hlater hlast]
termination_by structural entries

end

end DesignTokens.Value

namespace DesignTokens.Resolution

variable {tokens more : List Authored} {known : Known} {lead leadMore : Option String}
variable {out outMore : List Token}

/-- What was found from tokens that occur in another list is what that list has, too. -/
theorem Settled.valueAt?_eq (hknown : Settled tokens known)
    (hmore : resolve more leadMore = .ok outMore)
    (hoccurs : ∀ token ∈ tokens, ∃ other ∈ distinct more,
      other.path = token.path ∧ other.value = token.value)
    {path : TokenPath} {value : Value} (hvalue : Entries.get? known path = some value) :
    valueAt? outMore path = some value := by
  induction hknown generalizing path value with
  | nil => simp at hvalue
  | @snoc known token last _ hmem hnew hlast ih =>
      rw [← Entries.insert_of_get?_eq_none hnew, Entries.get?_insert] at hvalue
      by_cases hpath : token.path = path
      · obtain rfl : last = value := by simpa [hpath] using hvalue
        obtain ⟨other, hother, hsame, hauthored⟩ := hoccurs token hmem
        obtain ⟨found, hfound, hcarries, -⟩ :=
          Paired.exists_of_mem_left (settled_of_resolve hmore).choose_spec.2 hother
        have hreplaced : token.value.Replaced (valueAt? outMore) found.value := by
          rw [← hauthored, ← hcarries.original]
          exact (resolved_of_mem hmore hfound).2
        rw [← hpath, ← hsame, ← hcarries.path,
          valueAt?_of_mem (nodup_map_path_of_resolve hmore) hfound,
          hreplaced.unique _ (hlast.mono fun _ _ => ih)]
      · exact ih (by simpa [hpath] using hvalue)

/-- Tokens that occur, in any order and among any others, in a second list have the same
values in both, if both lists resolve. -/
theorem values_eq_of_occur (hnodup : (tokens.map Authored.path).Nodup)
    (hnodupMore : (more.map Authored.path).Nodup) (hout : resolve tokens lead = .ok out)
    (hmore : resolve more leadMore = .ok outMore)
    (hoccurs : ∀ token ∈ tokens, ∃ other ∈ more,
      other.path = token.path ∧ other.value = token.value) :
    ∀ token ∈ tokens, ∃ value, valueAt? out token.path = some value ∧
      valueAt? outMore token.path = some value := by
  intro token htoken
  obtain ⟨known, hknown, hpairs⟩ := settled_of_resolve hout
  rw [distinct_eq_self hnodup] at hknown hpairs
  obtain ⟨found, hfound, hcarries, hvalue⟩ := Paired.exists_of_mem_left hpairs htoken
  refine ⟨found.value, ?_, ?_⟩
  · rw [← hcarries.path, valueAt?_of_mem (nodup_map_path_of_resolve hout) hfound]
  · rw [← distinct_eq_self hnodupMore] at hoccurs
    exact hknown.valueAt?_eq hmore hoccurs hvalue

/-- A token that is embedded in another one's text. -/
def inset : List Authored :=
  [⟨["double"], .null, .text "2 * \x7bsize\x7d", [], .null, none⟩,
    ⟨["size"], .null, .text "16px", [], .null, none⟩]

def insetResolved : List Token :=
  [⟨["double"], "double", none, .text "2 * 16px", .text "2 * \x7bsize\x7d", none, none, [], none⟩,
    ⟨["size"], "size", none, .text "16px", .text "16px", none, none, [], none⟩]

/-- The same tokens the other way round and among two more, one of which refers to them. -/
def surrounded : List Authored :=
  [⟨["size"], .text "dimension", .text "16px", [], .null, none⟩,
    ⟨["all"], .null, .list [.text "\x7bdouble\x7d", .text "\x7bgap\x7d"], [], .null, none⟩,
    ⟨["double"], .null, .text "2 * \x7bsize\x7d", [], .null, none⟩,
    ⟨["gap"], .null, .int 4, [], .null, none⟩]

def surroundedResolved : List Token :=
  [⟨["size"], "size", some "dimension", .text "16px", .text "16px", none, none, [], none⟩,
    ⟨["all"], "all", none, .list [.text "2 * 16px", .int 4],
      .list [.text "\x7bdouble\x7d", .text "\x7bgap\x7d"], none, none, [], none⟩,
    ⟨["double"], "double", none, .text "2 * 16px", .text "2 * \x7bsize\x7d", none, none, [], none⟩,
    ⟨["gap"], "gap", none, .int 4, .int 4, none, none, [], none⟩]

theorem values_eq_of_occur_inset : resolve inset none = .ok insetResolved ∧
    resolve surrounded none = .ok surroundedResolved ∧
      ∀ token ∈ inset, ∃ value, valueAt? insetResolved token.path = some value ∧
        valueAt? surroundedResolved token.path = some value := by
  have hout : resolve inset none = .ok insetResolved := rfl
  have hmore : resolve surrounded none = .ok surroundedResolved := rfl
  refine ⟨hout, hmore, values_eq_of_occur (by decide) (by decide) hout hmore ?_⟩
  simp [inset, surrounded]

end DesignTokens.Resolution
