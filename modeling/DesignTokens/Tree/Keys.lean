import DesignTokens.Value.Basic

/-!
# Key conventions of token trees

A token tree is an object of groups and tokens; an object with a value key is a
token. Two spellings of the special keys are in use. Names that begin with a dollar
sign never name a group or a token.
-/

namespace DesignTokens.Tree

structure Keys where
  value : String
  type : String
  extensions : String
  description : String
deriving DecidableEq, Repr

/-- The keys of the community format. -/
def Keys.dtcg : Keys := ⟨"$value", "$type", "$extensions", "$description"⟩

/-- The older keys, without a mark of their own. -/
def Keys.legacy : Keys := ⟨"value", "type", "extensions", "comment"⟩

def Keys.of (dtcg : Bool) : Keys :=
  if dtcg then .dtcg else .legacy

/-- Names that are kept for the format itself. -/
def isReserved (name : String) : Bool :=
  name.toList.head? == some '$'

end DesignTokens.Tree
