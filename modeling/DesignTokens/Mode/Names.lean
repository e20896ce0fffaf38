import DesignTokens.Error
import DesignTokens.Token

/-!
# Names without modes

Tokens that differ only in their mode are declarations of one property. Its name is
the token's name with the mode left out of the path.
-/

namespace DesignTokens

namespace Token

/-- The path without its first step that names the mode. -/
def pathWithout (token : Token) (mode : String) : TokenPath :=
  token.path.erase mode

/-- The property name that a token shares with the same token under other modes. -/
def nameWithout (token : Token) (mode : Option String) (lead : Option String) : String :=
  match mode with
  | some mode =>
    if mode ∈ token.path then Name.ofPath (token.pathWithout mode) lead else token.name
  | none => token.name

/-- The property name with each of several modes left out once. -/
def nameWithoutAll (token : Token) (modes : List String) (lead : Option String) : String :=
  let path := modes.foldl List.erase token.path
  if path = token.path then token.name else Name.ofPath path lead

end Token

namespace Mode

/-- Puts a token under a name that must be new. -/
def enter (mode : String) (entered : List (String × Token)) (name : String) (token : Token) :
    Except Error (List (String × Token)) :=
  match Entries.get? entered name with
  | some other => .error (.problem (.sameName other.path token.path name mode) none)
  | none => .ok (entered ++ [(name, token)])

/-- The tokens of one mode under the names they share with other modes. Two tokens
that would share a name are an error. -/
def byName (tokens : List Token) (mode : String) (lead : Option String) :
    Except Error (List (String × Token)) :=
  tokens.foldlM (fun entered token => enter mode entered (token.nameWithout mode lead) token) []

end Mode

end DesignTokens
