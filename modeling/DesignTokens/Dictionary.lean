import DesignTokens.Error
import DesignTokens.Reference
import DesignTokens.Token

/-!
# Dictionaries

A dictionary holds every token that one build knows, those that are written and
those that are only referred to, at most one for each path.
-/

namespace DesignTokens

structure Dictionary where
  tokens : List Token
  nodup_paths : (tokens.map Token.path).Nodup

namespace Dictionary

/-- Tokens under their paths. A path that occurs again keeps its first place and
takes the last token. -/
def keyed (tokens : List Token) : List (TokenPath × Token) :=
  Entries.ofList (tokens.map fun token => (token.path, token))

theorem keys_eq_paths {entries : List (TokenPath × Token)}
    (hkeyed : ∀ entry ∈ entries, entry.1 = entry.2.path) :
    (Entries.values entries).map Token.path = Entries.keys entries := by
  simp only [Entries.values, Entries.keys, List.map_map]
  exact List.map_congr_left fun entry hmem => (hkeyed entry hmem).symm

theorem keyed_insert {entries : List (TokenPath × Token)}
    (hkeyed : ∀ entry ∈ entries, entry.1 = entry.2.path) (token : Token) :
    ∀ entry ∈ Entries.insert entries token.path token, entry.1 = entry.2.path := by
  induction entries with
  | nil => simp [Entries.insert]
  | cons first rest ih =>
      obtain ⟨k, v⟩ := first
      have hrest : ∀ entry ∈ rest, entry.1 = entry.2.path := fun entry hmem =>
        hkeyed entry (List.mem_cons_of_mem _ hmem)
      intro entry hmem
      by_cases heq : k = token.path
      · simp only [Entries.insert, heq, beq_self_eq_true, if_true, List.mem_cons] at hmem
        rcases hmem with rfl | hmem
        · rfl
        · exact hrest entry hmem
      · simp only [Entries.insert, beq_iff_eq, heq, if_false, List.mem_cons] at hmem
        rcases hmem with rfl | hmem
        · exact hkeyed _ List.mem_cons_self
        · exact ih hrest entry hmem

theorem keyed_update {entries : List (TokenPath × Token)}
    (hkeyed : ∀ entry ∈ entries, entry.1 = entry.2.path) (tokens : List Token) :
    ∀ entry ∈ Entries.update entries (tokens.map fun token => (token.path, token)),
      entry.1 = entry.2.path := by
  induction tokens generalizing entries with
  | nil => exact hkeyed
  | cons token rest ih => exact ih (keyed_insert hkeyed token)

def ofTokens (tokens : List Token) : Dictionary where
  tokens := Entries.values (keyed tokens)
  nodup_paths := by
    have hkeyed := @keyed_update [] (by simp) tokens
    exact keys_eq_paths hkeyed ▸ Entries.nodup_keys_ofList _

def size (dictionary : Dictionary) : Nat :=
  dictionary.tokens.length

def paths (dictionary : Dictionary) : List TokenPath :=
  dictionary.tokens.map Token.path

def get? (dictionary : Dictionary) (path : TokenPath) : Option Token :=
  dictionary.tokens.find? fun token => token.path == path

def contains (dictionary : Dictionary) (path : TokenPath) : Bool :=
  (dictionary.get? path).isSome

/-- The token that a dotted reference names; `referrer` is the path of the token in
which it stands. -/
def lookup (dictionary : Dictionary) (reference : String) (referrer : Option TokenPath) :
    Except Error Token :=
  match dictionary.get? (Reference.path reference) with
  | some token => .ok token
  | none => .error (.problem (.missingReference reference referrer) none)

/-- The tokens to which a value refers, each once, in structural order. -/
def referred (dictionary : Dictionary) (value : Value) (referrer : Option TokenPath) :
    Except Error (List Token) :=
  value.references.foldlM (fun found reference => do
    let token ← dictionary.lookup reference referrer
    if found.any fun other => other.path == token.path then
      return found
    else
      return found ++ [token]) []

end Dictionary

end DesignTokens
