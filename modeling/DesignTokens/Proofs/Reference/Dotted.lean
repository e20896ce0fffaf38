import DesignTokens.Proofs.Text
import DesignTokens.Reference

/-!
# Dotted paths

A path is written with dots between its steps and read by cutting at the dots. Reading
and writing are inverse to one another on the paths that have at least one step and no
dot inside a step.
-/

namespace DesignTokens

namespace Reference

/-- A reference is the dotted form of the path it names. -/
theorem dotted_path (reference : String) : (path reference).dotted = reference := by
  apply String.toList_injective
  have hmap : (Text.stretches (· == '.') reference.toList).map (String.toList ∘ String.ofList) =
      Text.stretches (· == '.') reference.toList := by
    simp [Function.comp_def]
  rw [TokenPath.dotted, String.toList_intercalate, path, Text.fields, List.map_map, hmap]
  exact Text.intercalate_stretches '.' reference.toList

/-- A path that can be written with dots is the one that its dotted form names. -/
theorem path_dotted {steps : TokenPath} (hne : steps ≠ [])
    (hdots : ∀ step ∈ steps, '.' ∉ step.toList) : path steps.dotted = steps := by
  rw [path, Text.fields, TokenPath.dotted, String.toList_intercalate]
  have hparts : ∀ part ∈ steps.map String.toList, '.' ∉ part := by simpa using hdots
  have hcut := Text.stretches_intercalate_eq_self (by simpa using hne) hparts
  have hdot : ".".toList = ['.'] := by decide
  rw [hdot, hcut]
  simp [Function.comp_def]

/-- What is added to a dotted path without a dot belongs to its last step. -/
theorem path_append {reference suffix last : String} {steps : TokenPath}
    (hpath : path reference = steps ++ [last]) (hsuffix : '.' ∉ suffix.toList) :
    path (reference ++ suffix) = steps ++ [last ++ suffix] := by
  obtain ⟨init, final, hshort, hlong⟩ := Text.exists_stretches_append hsuffix reference.toList
  rw [path, Text.fields, hshort, List.map_append] at hpath
  obtain ⟨hinit, hfinal⟩ := List.append_inj' hpath rfl
  rw [List.map_singleton, List.cons.injEq] at hfinal
  rw [path, Text.fields, String.toList_append, hlong, List.map_append, hinit, List.map_singleton,
    String.ofList_append, hfinal.1, String.ofList_toList]

end Reference

end DesignTokens
