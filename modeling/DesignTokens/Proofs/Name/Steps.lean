import DesignTokens.Mode.Names
import DesignTokens.Proofs.Name

/-!
# Names step by step

The lead of a name and the steps of its path have names of their own. Those that are not empty
are joined by hyphens, one after the other, whatever characters stand at their ends. So a lead
goes in front of the name that the path has without it, and a mode that is left out of a path
takes its own words out of the name and no others.
-/

namespace DesignTokens.Name

/-- The texts that are not empty, joined by hyphens. -/
def hyphenated (texts : List String) : String :=
  "-".intercalate (texts.filter (· ≠ ""))

/-- The name of the path has the words of the step between those before and after it, and
`shorter` has the others only. Of equal steps it is the first one. -/
def LeavesOut (path : TokenPath) (lead : Option String) (step shorter : String) : Prop :=
  ∃ before after, path = before ++ step :: after ∧ step ∉ before ∧
    ofPath path lead = hyphenated [ofPath before lead, kebab step, ofPath after none] ∧
    shorter = hyphenated [ofPath before lead, ofPath after none]

/-! ## Joining -/

theorem hyphenated_singleton (text : String) : hyphenated [text] = text := by
  by_cases htext : text = "" <;> simp [hyphenated, htext]

theorem hyphenated_empty_pair (text : String) : hyphenated ["", text] = text :=
  hyphenated_singleton text

theorem hyphenated_pair_empty (text : String) : hyphenated [text, ""] = text := by
  by_cases htext : text = "" <;> simp [hyphenated, htext]

theorem hyphenated_pair_of_ne_empty {first second : String} (hfirst : first ≠ "")
    (hsecond : second ≠ "") : hyphenated [first, second] = first ++ "-" ++ second := by
  simp [hyphenated, hfirst, hsecond]

theorem hyphenated_eq_empty_iff {texts : List String} :
    hyphenated texts = "" ↔ texts.filter (· ≠ "") = [] := by
  rw [hyphenated]
  cases hkept : texts.filter (· ≠ "") with
  | nil => simp
  | cons first rest =>
      have hmem : first ∈ texts.filter (· ≠ "") := hkept ▸ List.mem_cons_self
      have hfirst : first ≠ "" := by simpa using (List.mem_filter.1 hmem).2
      cases rest <;> simp [hfirst]

/-- Texts may be joined in two parts. -/
theorem hyphenated_append (first second : List String) :
    hyphenated (first ++ second) = hyphenated [hyphenated first, hyphenated second] := by
  by_cases hfirst : first.filter (· ≠ "") = []
  · rw [hyphenated_eq_empty_iff.2 hfirst, hyphenated_empty_pair, hyphenated, List.filter_append,
      hfirst, List.nil_append, hyphenated]
  by_cases hsecond : second.filter (· ≠ "") = []
  · rw [hyphenated_eq_empty_iff.2 hsecond, hyphenated_pair_empty, hyphenated, List.filter_append,
      hsecond, List.append_nil, hyphenated]
  · rw [hyphenated_pair_of_ne_empty (mt hyphenated_eq_empty_iff.1 hfirst)
      (mt hyphenated_eq_empty_iff.1 hsecond), hyphenated, List.filter_append,
      String.intercalate_append_of_ne_nil hfirst hsecond, hyphenated, hyphenated]

theorem hyphenated_cons (text : String) (rest : List String) :
    hyphenated (text :: rest) = hyphenated [text, hyphenated rest] := by
  rw [← List.singleton_append, hyphenated_append, hyphenated_singleton]

/-- Texts may be joined in any number of parts. -/
theorem hyphenated_flatten (rows : List (List String)) :
    hyphenated rows.flatten = hyphenated (rows.map hyphenated) := by
  induction rows with
  | nil => rfl
  | cons row rest ih =>
      rw [List.flatten_cons, hyphenated_append, ih, List.map_cons, ← hyphenated_cons]

/-! ## Steps -/

theorem kebab_eq_hyphenated (text : String) :
    kebab text = hyphenated ((words text.toList).map String.ofList) := by
  have hkept : ((words text.toList).map String.ofList).filter (· ≠ "") =
      (words text.toList).map String.ofList := by
    rw [List.filter_eq_self, List.forall_mem_map]
    intro word hword
    simpa using ne_nil_of_mem_words hword
  rw [hyphenated, hkept, kebab, ← String.toList_inj]
  simp [Function.comp_def]

/-- A path and its lead are named step by step. -/
theorem ofPath_eq_hyphenated (path : TokenPath) (lead : Option String) :
    ofPath path lead = hyphenated ((lead.toList ++ path).map kebab) := by
  obtain ⟨text, hname, hwords⟩ := ofPath_eq_kebab path lead
  calc ofPath path lead
      = hyphenated ((words text.toList).map String.ofList) := by rw [hname, kebab_eq_hyphenated]
    _ = hyphenated ((wordsOf (lead.toList ++ path)).map String.ofList) := by
        rw [hwords, wordsOf_append]
    _ = hyphenated ((lead.toList ++ path).map fun step =>
          (words step.toList).map String.ofList).flatten := by
        rw [wordsOf, List.map_flatMap, List.flatMap_def]
    _ = hyphenated ((lead.toList ++ path).map fun step =>
          hyphenated ((words step.toList).map String.ofList)) := by
        rw [hyphenated_flatten, List.map_map]
        rfl
    _ = hyphenated ((lead.toList ++ path).map kebab) := by rw [funext kebab_eq_hyphenated]

theorem ofPath_cons (step : String) (rest : TokenPath) :
    ofPath (step :: rest) none = hyphenated [kebab step, ofPath rest none] := by
  rw [ofPath_eq_hyphenated, ofPath_eq_hyphenated]
  exact hyphenated_cons (kebab step) (rest.map kebab)

/-- A lead is named like one more step in front. -/
theorem ofPath_some (path : TokenPath) (first : String) :
    ofPath path (some first) = hyphenated [kebab first, ofPath path none] := by
  rw [← ofPath_cons, ofPath_eq_hyphenated, ofPath_eq_hyphenated]
  rfl

theorem ofPath_append (path rest : TokenPath) (lead : Option String) :
    ofPath (path ++ rest) lead = hyphenated [ofPath path lead, ofPath rest none] := by
  rw [ofPath_eq_hyphenated, ← List.append_assoc, List.map_append, hyphenated_append,
    ← ofPath_eq_hyphenated, ofPath_eq_hyphenated rest]
  rfl

theorem ofPath_append_cons (before : TokenPath) (step : String) (after : TokenPath)
    (lead : Option String) :
    ofPath (before ++ step :: after) lead =
      hyphenated [ofPath before lead, kebab step, ofPath after none] := by
  rw [ofPath_append, ofPath_cons, ← hyphenated_cons]

/-! ## Modes -/

variable {path : TokenPath} {lead : Option String} {token : Token} {mode : String}

theorem leavesOut_erase (hmode : mode ∈ path) :
    LeavesOut path lead mode (ofPath (path.erase mode) lead) := by
  obtain ⟨before, after, hbefore, hpath, herase⟩ := List.exists_erase_eq hmode
  refine ⟨before, after, hpath, hbefore, ?_, ?_⟩
  · rw [hpath, ofPath_append_cons]
  · rw [herase, ofPath_append]

theorem nameWithout_of_mem (hmode : mode ∈ token.path) (lead : Option String) :
    token.nameWithout mode lead = ofPath (token.path.erase mode) lead :=
  if_pos hmode

/-- A mode that is still a step is left out after the modes before it. -/
theorem nameWithoutAll_append_singleton {modes : List String} (hmode : mode ∈ token.path.diff modes)
    (lead : Option String) : token.nameWithoutAll (modes ++ [mode]) lead =
      ofPath ((token.path.diff modes).erase mode) lead := by
  have hshorter : (token.path.diff modes).erase mode ≠ token.path := by
    intro hsame
    have hlength := List.length_erase_add_one hmode
    have hle := (List.diff_sublist token.path modes).length_le
    rw [hsame] at hlength
    omega
  rw [Token.nameWithoutAll, List.foldl_append, ← List.diff_eq_foldl token.path]
  exact if_neg hshorter

/-- A name is built of the names of its lead and its steps. A lead goes in front of it, and a
mode that is left out, alone or after others, leaves all words but its own. -/
theorem ofPath_stepwise (path : TokenPath) (lead : Option String) :
    ofPath path lead = hyphenated ((lead.toList ++ path).map kebab) ∧
      (∀ first, ofPath path (some first) = hyphenated [kebab first, ofPath path none]) ∧
      ∀ token : Token, token.path = path →
        (∀ mode ∈ path, LeavesOut path lead mode (token.nameWithout mode lead)) ∧
        ∀ modes, ∀ mode ∈ path.diff modes, LeavesOut (path.diff modes) lead mode
          (token.nameWithoutAll (modes ++ [mode]) lead) := by
  refine ⟨ofPath_eq_hyphenated path lead, ofPath_some path, ?_⟩
  rintro token rfl
  constructor
  · intro mode hmode
    rw [nameWithout_of_mem hmode]
    exact leavesOut_erase hmode
  · intro modes mode hmode
    rw [nameWithoutAll_append_singleton hmode]
    exact leavesOut_erase hmode

/-- A surface below two modes. -/
def contrastSurface : Token :=
  ⟨["color", "dark", "highContrast", "surface2X"], "color-dark-high-contrast-surface2-x",
    some "color", .text "#000", .text "#000", some "dark", none, [], none⟩

theorem ofPath_stepwise_contrastSurface :
    ("dark" ∈ contrastSurface.path ∧ "highContrast" ∈ contrastSurface.path.diff ["dark"]) ∧
      LeavesOut contrastSurface.path (some "ds") "dark"
        (contrastSurface.nameWithout "dark" (some "ds")) ∧
      LeavesOut ["color", "highContrast", "surface2X"] (some "ds") "highContrast"
        (contrastSurface.nameWithoutAll ["dark", "highContrast"] (some "ds")) := by
  have hdark : "dark" ∈ contrastSurface.path := by decide
  have hcontrast : "highContrast" ∈ contrastSurface.path.diff ["dark"] := by decide
  have hrest : contrastSurface.path.diff ["dark"] = ["color", "highContrast", "surface2X"] := by
    decide
  obtain ⟨-, -, hmodes⟩ := ofPath_stepwise contrastSurface.path (some "ds")
  obtain ⟨halone, hafter⟩ := hmodes contrastSurface rfl
  have hboth := hafter ["dark"] "highContrast" hcontrast
  rw [hrest] at hboth
  exact ⟨⟨hdark, hcontrast⟩, halone "dark" hdark, hboth⟩

example : contrastSurface.nameWithoutAll ["dark", "highContrast"] (some "ds") =
    "ds-color-surface2-x" := by decide +kernel

end DesignTokens.Name
