import DesignTokens.Proofs.Entries
import DesignTokens.Resolution

/-!
# One token for each path

Tokens of one path stand for one token. It has the place of the first of them and the
data of the last.
-/

namespace DesignTokens.Resolution

variable {tokens : List Authored} {token : Authored}

/-- The token is in the list and no later one has its path. -/
def IsLast (tokens : List Authored) (token : Authored) : Prop :=
  ∃ before after, tokens = before ++ token :: after ∧ ∀ later ∈ after, later.path ≠ token.path

theorem isLast_of_mem_entries {path : TokenPath}
    (hmem : (path, token) ∈ Entries.ofList (tokens.map fun token => (token.path, token))) :
    token.path = path ∧ IsLast tokens token := by
  have hvalue := Entries.get?_eq_some_of_mem (Entries.nodup_keys_ofList _) hmem
  obtain ⟨before, after, htokens, hnew⟩ := Entries.eq_append_of_get?_ofList hvalue
  obtain ⟨first, rest, rfl, -, hrest⟩ := List.map_eq_append_iff.1 htokens
  obtain ⟨last, others, rfl, hlast, rfl⟩ := List.map_eq_cons_iff.1 hrest
  obtain ⟨rfl, rfl⟩ := Prod.mk.inj hlast
  exact ⟨rfl, first, others, rfl, by simpa [Entries.keys] using hnew⟩

theorem isLast_of_mem_distinct (hmem : token ∈ distinct tokens) : IsLast tokens token := by
  obtain ⟨⟨path, _⟩, hentry, rfl⟩ := List.mem_map.1 hmem
  exact (isLast_of_mem_entries hentry).2

theorem mem_of_mem_distinct (hmem : token ∈ distinct tokens) : token ∈ tokens := by
  obtain ⟨before, after, htokens, -⟩ := isLast_of_mem_distinct hmem
  rw [htokens]
  exact List.mem_append_cons_self

theorem map_path_distinct_eq_keys (tokens : List Authored) :
    (distinct tokens).map Authored.path =
      Entries.keys (Entries.ofList (tokens.map fun token => (token.path, token))) := by
  rw [distinct, Entries.values, List.map_map, Entries.keys]
  exact List.map_congr_left fun entry hentry => (isLast_of_mem_entries hentry).1

/-- Each path is kept once, in the order in which the paths come first. -/
theorem map_path_distinct (tokens : List Authored) :
    (distinct tokens).map Authored.path = (tokens.map Authored.path).eraseDups := by
  rw [map_path_distinct_eq_keys, Entries.keys_ofList, List.map_map]
  rfl

theorem nodup_map_path_distinct (tokens : List Authored) :
    ((distinct tokens).map Authored.path).Nodup := by
  rw [map_path_distinct_eq_keys]
  exact Entries.nodup_keys_ofList _

/-- Tokens with a path each are kept as they stand. -/
theorem distinct_eq_self (hnodup : (tokens.map Authored.path).Nodup) :
    distinct tokens = tokens := by
  have hkeys : (Entries.keys (tokens.map fun token => (token.path, token))).Nodup := by
    rwa [Entries.keys, List.map_map]
  rw [distinct, Entries.ofList_eq_self hkeys, Entries.values, List.map_map]
  exact List.map_id tokens

end DesignTokens.Resolution
