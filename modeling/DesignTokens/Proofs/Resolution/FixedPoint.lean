import Mathlib.Data.List.Nodup
import DesignTokens.Proofs.Paired
import DesignTokens.Proofs.Resolution.Checks
import DesignTokens.Proofs.Resolution.Distinct
import DesignTokens.Proofs.Resolution.Search

/-!
# The resolved values

Resolved tokens solve the equations that their references set up: every value is the
authored one with each reference replaced by the value that the resolved tokens
themselves have at the path it names.
-/

namespace DesignTokens.Resolution

variable {tokens : List Authored} {known : Known} {lead : Option String} {out : List Token}

/-- A known value is that of a token with its references replaced by known values. -/
theorem Settled.replaced (hknown : Settled tokens known) {path : TokenPath} {value : Value}
    (hvalue : Entries.get? known path = some value) :
    ∃ token ∈ tokens, token.path = path ∧ token.value.Replaced (Entries.get? known) value := by
  induction hknown with
  | nil => simp at hvalue
  | @snoc known token last _ hmem hnew hlast ih =>
      have hkept := fun path value (hold : Entries.get? known path = some value) =>
        Entries.get?_append_of_eq_some hold [(token.path, last)]
      cases hold : Entries.get? known path with
      | some found =>
          have hsame : found = value := by simpa [hkept path found hold] using hvalue
          subst hsame
          obtain ⟨first, hfirst, hpath, hreplaced⟩ := ih hold
          exact ⟨first, hfirst, hpath, hreplaced.mono hkept⟩
      | none =>
          rw [← Entries.insert_of_get?_eq_none hnew, Entries.get?_insert, hold] at hvalue
          obtain ⟨rfl, rfl⟩ : token.path = path ∧ last = value := by simpa using hvalue
          exact ⟨token, hmem, rfl, hlast.mono hkept⟩

theorem valueOf_ends_of_mem {token : Authored} (hmem : token ∈ tokens)
    (hknown : Settled tokens known) :
    Ends (valueOf tokens (tokens.length + 1) [] token) known
      (fun value later => Grows tokens [] known later ∧
        Entries.get? later token.path = some value) (Fault tokens) :=
  @valueOf_ends tokens _ [] token known ⟨.nil, .nil, List.nil_subset _⟩ hmem (by simp) (by simp)
    hknown

theorem finish_ends (authored : Authored) (value : Value) :
    Ends (finish lead authored value : StateT Known (Except Error) Token) known
      (fun token later => later = known ∧ Token.Carries lead authored token ∧ token.value = value)
      (fun error => finish lead authored value = .error error) :=
  Ends.of_except (fun _ htoken => ⟨rfl, finish_eq_ok.1 htoken⟩) fun _ herror => herror

/-- Resolving tokens in turn gives tokens with their data and their known values. -/
theorem resolveEach_ends (todo : List Authored) (htodo : todo ⊆ tokens)
    (hknown : Settled tokens known) :
    Ends (resolveEach lead tokens todo) known
      (fun out later => Grows tokens [] known later ∧ List.Forall₂
        (fun authored token => Token.Carries lead authored token ∧
          Entries.get? later authored.path = some token.value) todo out)
      (fun error => Fault tokens error ∨
        ∃ authored ∈ tokens, ∃ value, finish lead authored value = .error error) := by
  induction todo generalizing known with
  | nil => exact Ends.of_return ⟨.refl hknown, .nil⟩
  | cons authored rest ih =>
      obtain ⟨hmem, hrest⟩ := List.cons_subset.1 htodo
      have hvalue := valueOf_ends_of_mem hmem hknown
      rw [resolveEach]
      apply (hvalue.weaken fun error => Or.inl).bind
      intro value later hlater
      have hreport : ∀ error, finish lead authored value = .error error → Fault tokens error ∨
          ∃ authored ∈ tokens, ∃ value, finish lead authored value = .error error :=
        fun error herror => .inr ⟨authored, hmem, value, herror⟩
      apply ((finish_ends authored value).weaken hreport).bind
      rintro token _ ⟨rfl, hcarries, rfl⟩
      apply (ih hrest hlater.1.settled).bind
      intro others last hothers
      have hkept := hothers.1.get?_eq _ _ hlater.2
      exact Ends.of_return ⟨hlater.1.trans hothers.1, .cons ⟨hcarries, hkept⟩ hothers.2⟩

theorem settled_of_resolve (hout : resolve tokens lead = .ok out) :
    ∃ known, Settled (distinct tokens) known ∧ List.Forall₂
      (fun authored token => Token.Carries lead authored token ∧
        Entries.get? known authored.path = some token.value) (distinct tokens) out := by
  obtain ⟨known, hgrows, hpairs⟩ :=
    (resolveEach_ends (distinct tokens) (List.Subset.refl _) .nil).exists_of_run'_eq_ok hout
  exact ⟨known, hgrows.settled, hpairs⟩

theorem fault_of_resolve {error : Error} (herror : resolve tokens lead = .error error) :
    Fault (distinct tokens) error ∨
      ∃ authored ∈ distinct tokens, ∃ value, finish lead authored value = .error error :=
  (resolveEach_ends (distinct tokens) (List.Subset.refl _) .nil).bad_of_run'_eq_error herror

/-- The value of the token at a path. -/
def valueAt? (tokens : List Token) (path : TokenPath) : Option Value :=
  (tokens.find? fun token => token.path == path).map Token.value

theorem valueAt?_of_mem (hnodup : (out.map Token.path).Nodup) {token : Token}
    (hmem : token ∈ out) : valueAt? out token.path = some token.value := by
  cases hfind : out.find? fun other => other.path == token.path with
  | none => exact absurd (List.find?_eq_none.1 hfind token hmem) (by simp)
  | some other =>
      have hpath : other.path = token.path := by simpa using List.find?_some hfind
      have hsame := List.inj_on_of_nodup_map hnodup (List.mem_of_find?_eq_some hfind) hmem hpath
      rw [valueAt?, hfind, Option.map_some, hsame]

theorem map_path_of_resolve (hout : resolve tokens lead = .ok out) :
    out.map Token.path = (distinct tokens).map Authored.path := by
  obtain ⟨known, -, hpairs⟩ := settled_of_resolve hout
  exact Paired.map_eq_map hpairs fun _ _ hpair => hpair.1.path

theorem nodup_map_path_of_resolve (hout : resolve tokens lead = .ok out) :
    (out.map Token.path).Nodup := by
  rw [map_path_of_resolve hout]
  exact nodup_map_path_distinct tokens

/-- A resolved token has the data of the last token of its path, and its value solves the
equations of the references. -/
theorem resolved_of_mem (hout : resolve tokens lead = .ok out) {token : Token}
    (htoken : token ∈ out) :
    (∃ authored, IsLast tokens authored ∧ Token.Carries lead authored token) ∧
      token.original.Replaced (valueAt? out) token.value := by
  obtain ⟨known, hknown, hpairs⟩ := settled_of_resolve hout
  have hvalues : ∀ path value, Entries.get? known path = some value →
      valueAt? out path = some value := by
    intro path value hvalue
    obtain ⟨authored, hmem, rfl, -⟩ := hknown.replaced hvalue
    obtain ⟨token, htoken, hcarries, hsame⟩ := Paired.exists_of_mem_left hpairs hmem
    rw [← hcarries.path, valueAt?_of_mem (nodup_map_path_of_resolve hout) htoken, ← hsame, hvalue]
  obtain ⟨authored, hmem, hcarries, hvalue⟩ := Paired.exists_of_mem_right hpairs htoken
  refine ⟨⟨authored, isLast_of_mem_distinct hmem, hcarries⟩, ?_⟩
  obtain ⟨other, hother, hpath, hreplaced⟩ := hknown.replaced hvalue
  have hsame := List.inj_on_of_nodup_map (nodup_map_path_distinct tokens) hother hmem hpath
  rw [hcarries.original, ← hsame]
  exact hreplaced.mono hvalues

/-- Resolved tokens have each path once, in the order of the authored paths, with the data
of the last token of the path, and their values solve the equations of the references. -/
theorem resolve_fixedPoint (hout : resolve tokens lead = .ok out) :
    out.map Token.path = (tokens.map Authored.path).eraseDups ∧
      ∀ token ∈ out,
        (∃ authored, IsLast tokens authored ∧ Token.Carries lead authored token) ∧
          token.original.Replaced (valueAt? out) token.value :=
  ⟨(map_path_of_resolve hout).trans (map_path_distinct tokens),
    fun _ htoken => resolved_of_mem hout htoken⟩

/-- An alias, a reference inside longer text, and a path that occurs twice. -/
def chained : List Authored :=
  [⟨["a"], .null, .text "\x7bb\x7d", [], .null, none⟩,
    ⟨["b"], .text "string", .text "x\x7bc\x7d", [], .null, none⟩,
    ⟨["c"], .null, .text "s", [], .null, none⟩,
    ⟨["a"], .null, .list [.text "\x7b b \x7d"], [(.text "mode", .text "dark")], .text "last", none⟩]

def chainedResolved : List Token :=
  [⟨["a"], "a", none, .list [.text "xs"], .list [.text "\x7b b \x7d"], some "dark", some "last",
      [("mode", .text "dark")], none⟩,
    ⟨["b"], "b", some "string", .text "xs", .text "x\x7bc\x7d", none, none, [], none⟩,
    ⟨["c"], "c", none, .text "s", .text "s", none, none, [], none⟩]

theorem resolve_fixedPoint_chained : resolve chained none = .ok chainedResolved ∧
    chainedResolved.map Token.path = (chained.map Authored.path).eraseDups ∧
      ∀ token ∈ chainedResolved,
        (∃ authored, IsLast chained authored ∧ Token.Carries none authored token) ∧
          token.original.Replaced (valueAt? chainedResolved) token.value :=
  have hout : resolve chained none = .ok chainedResolved := rfl
  ⟨hout, resolve_fixedPoint hout⟩

end DesignTokens.Resolution
