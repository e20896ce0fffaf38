import DesignTokens.Proofs.Paired
import DesignTokens.Proofs.Schema
import DesignTokens.Resolution

/-!
# The checks of a token

A resolved token takes over the data of the authored one. Its checks only ask that
type and description are text, if they are there, and that extensions have text keys.
-/

namespace DesignTokens

/-- Every key of the extensions is text. -/
def Authored.HasTextKeys (token : Authored) : Prop :=
  ∀ entry ∈ token.extensions, ∃ name, Schema.text (.scalar entry.1) = .valid name

namespace Token

/-- The token has the data of the authored one; its value is not spoken of. -/
structure Carries (lead : Option String) (authored : Authored) (token : Token) : Prop where
  path : token.path = authored.path
  name : token.name = Name.ofPath authored.path lead
  type : authored.type = token.type.elim .null .text
  original : token.original = authored.value
  mode : token.mode = (Entries.get? authored.extensions (Scalar.text "mode")).bind Value.text?
  description : authored.description = token.description.elim .null .text
  extensions : List.Forall₂
    (fun found kept => Schema.text (.scalar found.1) = .valid kept.1 ∧ found.2 = kept.2)
    authored.extensions token.extensions
  source : token.source = authored.source

theorem checkText_eq_valid {name : String} {value : Value} {found : Option String} :
    checkText name value = .valid found ↔ value = found.elim .null .text := by
  rw [checkText, Schema.Checked.within_eq_valid]
  cases value <;> cases found <;> simp [Schema.textOrNull, Value.toData, Schema.text,
    Schema.Checked.fail]

theorem checkExtensions_eq_valid {found : List (Scalar × Value)} {extensions : Object} :
    checkExtensions found = .valid extensions ↔ List.Forall₂
      (fun found kept => Schema.text (.scalar found.1) = .valid kept.1 ∧ found.2 = kept.2)
      found extensions := by
  rw [checkExtensions, Schema.Checked.all_eq_valid, List.forall₂_map_left_iff]
  simp [Prod.ext_iff, and_comm]

end Token

namespace Resolution

variable {lead : Option String}

theorem finish_eq_ok {authored : Authored} {value : Value} {token : Token} :
    finish lead authored value = .ok token ↔
      Token.Carries lead authored token ∧ token.value = value := by
  have hchecked {x : Except Schema.Report Token} :
      x.mapError Error.report = .ok token ↔ x = .ok token := by
    cases x <;> simp [Except.mapError]
  simp only [finish, hchecked, Schema.Checked.toExcept_eq_ok, Schema.Checked.seq_eq_valid,
    Schema.Checked.map_eq_valid, Schema.Checked.within_eq_valid, Token.checkText_eq_valid,
    Token.checkExtensions_eq_valid]
  constructor
  · rintro ⟨_, ⟨_, ⟨type, htype, rfl⟩, description, hdescription, rfl⟩, extensions, hextensions,
      rfl⟩
    exact ⟨⟨rfl, rfl, htype, rfl, rfl, hdescription, hextensions, rfl⟩, rfl⟩
  · rintro ⟨⟨hpath, hname, htype, horiginal, hmode, hdescription, hextensions, hsource⟩, rfl⟩
    refine ⟨_, ⟨_, ⟨_, htype, rfl⟩, _, hdescription, rfl⟩, _, hextensions, ?_⟩
    cases token
    simp_all

/-- A token with text type and description fails its checks only for its extensions. -/
theorem exists_finish_eq_ok {authored : Authored} {type description : Option String}
    (htype : authored.type = type.elim .null .text)
    (hdescription : authored.description = description.elim .null .text)
    (hkeys : authored.HasTextKeys) (lead : Option String) (value : Value) :
    ∃ token, finish lead authored value = .ok token := by
  obtain ⟨extensions, hextensions⟩ : ∃ extensions : Object, List.Forall₂
      (fun found kept => Schema.text (.scalar found.1) = .valid kept.1 ∧ found.2 = kept.2)
      authored.extensions extensions := by
    apply Paired.exists_of_forall_exists
    intro entry hentry
    obtain ⟨name, hname⟩ := hkeys entry hentry
    exact ⟨(name, entry.2), hname, rfl⟩
  let token : Token := {
    path := authored.path, name := Name.ofPath authored.path lead, type, value
    original := authored.value
    mode := (Entries.get? authored.extensions (Scalar.text "mode")).bind Value.text?
    description, extensions, source := authored.source }
  have hcarries : Token.Carries lead authored token :=
    ⟨rfl, rfl, htype, rfl, rfl, hdescription, hextensions, rfl⟩
  exact ⟨token, finish_eq_ok.2 ⟨hcarries, rfl⟩⟩

theorem exists_report_of_finish {authored : Authored} {value : Value} {error : Error}
    (herror : finish lead authored value = .error error) : ∃ found, error = .report found := by
  have hmapped {x : Except Schema.Report Token} (hx : x.mapError Error.report = .error error) :
      ∃ found, error = .report found := by
    cases x with
    | ok token => cases hx
    | error found =>
        cases hx
        exact ⟨found, rfl⟩
  exact hmapped herror

end Resolution

end DesignTokens
