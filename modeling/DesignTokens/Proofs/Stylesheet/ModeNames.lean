import DesignTokens.Proofs.Name
import DesignTokens.Proofs.Stylesheet.ModeFiles

/-!
# The name of a token in the file of its mode

In the document of a category a token of a mode is named without the first step of its path
that is the mode. The file of the mode leaves out one such step for its own name and one more
for the mode of the token, so that the two names are one only as long as the mode is at most
once a step of the path.
-/

namespace DesignTokens.Stylesheet.Assembly

variable {assembly : Assembly} {mode : String} {dictionary : Dictionary} {token : Token}

theorem fields_eq_singleton (hword : '/' ∉ mode.toList) : Text.fields '/' mode = [mode] := by
  rw [Text.fields, Text.stretches_eq_singleton hword, List.map_singleton, String.ofList_toList]

/-- Leaving out one mode gives the name that the token shares with other modes. -/
theorem nameWithoutAll_singleton (token : Token) (mode : String) (lead : Option String) :
    token.nameWithoutAll [mode] lead = token.nameWithout mode lead := by
  rw [Token.nameWithoutAll, Token.nameWithout]
  by_cases hpath : mode ∈ token.path
  · simp [hpath, Token.pathWithout]
  · simp [hpath, List.erase_of_not_mem]

theorem nameWithoutAll_pair_of_not_mem (hpath : mode ∉ token.path) (lead : Option String) :
    token.nameWithoutAll [mode, mode] lead = token.name := by
  have hkept : token.path.erase mode = token.path := List.erase_of_not_mem hpath
  rw [Token.nameWithoutAll, List.foldl_cons, hkept, List.foldl_cons, hkept, List.foldl_nil,
    if_pos rfl]

theorem nameWithoutAll_pair_of_mem (hpath : mode ∈ token.path) (lead : Option String) :
    token.nameWithoutAll [mode, mode] lead =
      Name.ofPath ((token.pathWithout mode).erase mode) lead := by
  have hshorter : (token.path.erase mode).erase mode ≠ token.path := by
    intro hsame
    have hlength := List.length_erase_add_one hpath
    have hle := (List.erase_sublist (a := mode) (l := token.path.erase mode)).length_le
    rw [hsame] at hle
    omega
  rw [Token.nameWithoutAll, List.foldl_cons, List.foldl_cons, List.foldl_nil, if_neg hshorter]
  rfl

/-- Leaving a mode out twice leaves out one step too many if the path has the mode twice as a
step, unless the mode has no words. -/
theorem nameWithoutAll_pair_eq_iff {lead : Option String} :
    token.nameWithoutAll [mode, mode] lead = token.nameWithout mode lead ↔
      token.path.count mode ≤ 1 ∨ Name.kebab mode = "" := by
  by_cases hpath : mode ∈ token.path
  · have honce : mode ∉ token.pathWithout mode ↔ token.path.count mode ≤ 1 := by
      rw [Token.pathWithout, ← List.count_eq_zero, List.count_erase_self]
      omega
    rw [nameWithoutAll_pair_of_mem hpath, Token.nameWithout, if_pos hpath,
      Name.ofPath_erase_eq_iff, honce]
  · rw [nameWithoutAll_pair_of_not_mem hpath, Token.nameWithout, if_neg hpath,
      List.count_eq_zero_of_not_mem hpath]
    simp

/-- In the file of its mode a token has the name that it shares with the same token under
other modes exactly when the mode is at most once a step of its path or has no words. The
file declares it under the shared name in exactly these cases. -/
theorem modeName_eq_nameWithout_iff (hmode : token.mode = some mode)
    (hword : '/' ∉ mode.toList) :
    (assembly.modeName mode token = token.nameWithout mode assembly.options.lead ↔
      token.path.count mode ≤ 1 ∨ Name.kebab mode = "") ∧
    ∀ done next, (assembly.addModeDeclaration mode dictionary done token).result = .ok next →
      (next.2.map Declaration.property = done.2.map Declaration.property ++
          [custom (token.nameWithout mode assembly.options.lead)] ↔
        token.path.count mode ≤ 1 ∨ Name.kebab mode = "") := by
  have hnames : assembly.modeName mode token = token.nameWithout mode assembly.options.lead ↔
      token.path.count mode ≤ 1 ∨ Name.kebab mode = "" := by
    by_cases hempty : mode = ""
    · subst hempty
      have hkebab : Name.kebab "" = "" := rfl
      simp [modeName, hmode, fields_eq_singleton hword, nameWithoutAll_singleton, hkebab]
    · have htwice : assembly.modeName mode token =
          token.nameWithoutAll [mode, mode] assembly.options.lead := by
        simp [modeName, hmode, fields_eq_singleton hword, hempty]
      rw [htwice, nameWithoutAll_pair_eq_iff]
  refine ⟨hnames, fun done next hnext => ?_⟩
  rw [properties_of_addModeDeclaration hnext, List.append_cancel_left_eq, List.singleton_inj,
    custom_injective.eq_iff, hnames]

/-! ## A mode that is twice a step of a path -/

/-- A dark color in a group of dark surfaces. -/
def darkDark : Token :=
  ⟨["dark", "dark", "surface"], "dark-dark-surface", some "color", .text "#000", .text "#000",
    some "dark", none, [], none⟩

def darkDarkTokens : Dictionary where
  tokens := [darkDark]
  nodup_paths := by simp

theorem modeName_eq_nameWithout_iff_darkDark :
    (darkDark.mode = some "dark" ∧ '/' ∉ "dark".toList ∧
      (({} : Assembly).addModeDeclaration "dark" darkDarkTokens ([], []) darkDark).result =
        .ok ([("surface", darkDark)], [⟨"--surface", "#000"⟩])) ∧
    ({} : Assembly).modeName "dark" darkDark ≠ darkDark.nameWithout "dark" none ∧
      ["--surface"] ≠ [custom (darkDark.nameWithout "dark" none)] := by
  have hword : '/' ∉ "dark".toList := by decide
  have hadded : (({} : Assembly).addModeDeclaration "dark" darkDarkTokens ([], []) darkDark).result =
      .ok ([("surface", darkDark)], [⟨"--surface", "#000"⟩]) := rfl
  have htwice : ¬ (darkDark.path.count "dark" ≤ 1 ∨ Name.kebab "dark" = "") := by decide
  obtain ⟨hname, hdeclared⟩ :=
    @modeName_eq_nameWithout_iff {} "dark" darkDarkTokens darkDark rfl hword
  refine ⟨⟨rfl, hword, hadded⟩, fun hsame => htwice (hname.1 hsame), fun hsame => ?_⟩
  exact htwice ((hdeclared _ _ hadded).1 hsame)

/-- The dark file and the document of the colors declare one token under two names. -/
theorem not_same_name_darkDark :
    darkDark.nameWithout "dark" none = "dark-surface" ∧
    (({} : Assembly).modeItems "color" "dark" darkDarkTokens.tokens darkDarkTokens).result =
      .ok [.block ":root" [⟨"--surface", "#000"⟩] []] ∧
    (({} : Assembly).categoryItems "color" darkDarkTokens.tokens darkDarkTokens).result =
      .ok [.block ":root" [⟨"--dark-surface", "#000"⟩] []] :=
  ⟨by decide, rfl, rfl⟩

end DesignTokens.Stylesheet.Assembly
