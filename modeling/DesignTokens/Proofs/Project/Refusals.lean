import DesignTokens.Project.Build
import DesignTokens.Proofs.Files.Found
import DesignTokens.Proofs.Resolution.Homographs
import DesignTokens.Proofs.Stylesheet.Failures
import DesignTokens.Proofs.Stylesheet.ImportSheets
import DesignTokens.Proofs.Stylesheet.TokenFaults

/-!
# Errors that refuse a tier

A build refuses a tier that is not there, and one with a mode whose file is missing. Nothing
that is read or made on the way to its files ends in such an error: token files, the
resolution of references, the documents and the trees for design tools all fail over
something else.
-/

namespace DesignTokens

open Failing

namespace Error

/-- The error says that a tier or the file of a mode is missing. -/
inductive RefusesTier : Error → Prop
  | unknownTier (name : String) (context : Option Context) :
      RefusesTier (.problem (.unknownTier name) context)
  | missingModeFile (mode : String) (context : Option Context) :
      RefusesTier (.problem (.missingModeFile mode) context)

/-- The error is another one. -/
def SparesTier (error : Error) : Prop :=
  ¬ error.RefusesTier

theorem sparesTier_shape (fault : ShapeFault) : (Error.shape fault).SparesTier := nofun

theorem sparesTier_file (fault : FileFault) : (Error.file fault).SparesTier := nofun

theorem SparesTier.of_shape {error : Error} (hshape : ∃ fault, error = .shape fault) :
    error.SparesTier := by
  obtain ⟨fault, rfl⟩ := hshape
  exact sparesTier_shape fault

end Error

/-! ### Token files -/

namespace Resolution

theorem failsOnly_resolve (tokens : List Authored) (lead : Option String) :
    FailsOnly Error.SparesTier (resolve tokens lead) := by
  intro error herror
  rcases fault_of_resolve herror with hfault | ⟨authored, -, value, hfinish⟩
  · cases hfault with
    | missing => exact nofun
    | cycle => exact nofun
  · obtain ⟨found, rfl⟩ := exists_report_of_finish hfinish
    exact nofun

end Resolution

namespace Loading

open DesignTokens.Tree

variable (files : FileTree)

theorem failsOnly_readTree (path : Path) : FailsOnly Error.SparesTier (readTree files path) := by
  refine .bind (.mapError Error.sparesTier_file) fun text _ => ?_
  extract_lets context
  split
  · exact .of_ok _
  · exact .of_error nofun
  · exact .of_error nofun
  · exact .of_error nofun

theorem failsOnly_addFile (keys : Keys) (loaded : Loaded) (path : Path) :
    FailsOnly Error.SparesTier (addFile files keys loaded path).result := by
  have htokens (tree : Object) : FailsOnly Error.SparesTier (tokensOf keys tree) :=
    (failsOnly_tokensOf keys tree).mono fun _ => .of_shape
  refine Traced.failsOnly_bind (failsOnly_readTree files path) fun tree _ => ?_
  refine Traced.failsOnly_bind ((htokens tree).bind fun _ _ => .of_ok _) fun added _ => ?_
  exact .of_ok added

theorem failsOnly_dictionaryOfFiles (paths : List Path) (dtcg : Bool) (lead : Option String) :
    FailsOnly Error.SparesTier (dictionaryOfFiles files paths dtcg lead).result := by
  have htokens (tree : Object) : FailsOnly Error.SparesTier (tokensOf (Keys.of dtcg) tree) :=
    (failsOnly_tokensOf _ tree).mono fun _ => .of_shape
  refine Traced.failsOnly_bind (Traced.failsOnly_bind (Traced.failsOnly_foldlM
    (fun path _ loaded => failsOnly_addFile files _ loaded path) _) fun loaded _ =>
      (htokens loaded.tree).bind fun _ _ => .of_ok _) fun tokens _ => ?_
  exact Traced.failsOnly_bind (Resolution.failsOnly_resolve tokens lead) fun _ _ => .of_ok _

end Loading

/-! ### Documents -/

namespace Stylesheet

theorem ConcernsTokens.sparesTier {error : Error} (hconcerns : ConcernsTokens error) :
    error.SparesTier := by
  cases hconcerns with
  | reference => exact nofun
  | names => exact nofun
  | channels hfault => exact .of_shape hfault.isShape
  | path => exact nofun

theorem failsOnly_axis (table : List Breakpoint) :
    FailsOnly Error.SparesTier (Breakpoint.axis table) := by
  rw [Breakpoint.axis]
  split
  · exact .of_error (Error.sparesTier_shape _)
  · exact .of_ok _

theorem failsOnly_categoryText_settings (settings : Settings) (category : String)
    (tokens : List Token) (dictionary : Dictionary) :
    FailsOnly Error.SparesTier (settings.assembly.categoryText category tokens dictionary).result :=
  Assembly.failsOnly_categoryText_of_axis rfl rfl (fun _ => ConcernsTokens.sparesTier)
    (failsOnly_axis _) category

theorem failsOnly_modeText_settings (settings : Settings) (category mode : String)
    (tokens : List Token) (dictionary : Dictionary) :
    FailsOnly Error.SparesTier
      (settings.assembly.modeText category mode tokens dictionary).result :=
  (Assembly.failsOnly_modeText rfl category mode).mono fun _ => ConcernsTokens.sparesTier

end Stylesheet

namespace Figma

open DesignTokens.Tree

theorem failsOnly_place (leaf : Value) (path : TokenPath) (group : Object) :
    FailsOnly Error.SparesTier (place leaf path group) := by
  induction path generalizing group with
  | nil => exact .of_error (Error.sparesTier_shape _)
  | cons name rest ih =>
      cases rest with
      | nil => exact .of_ok _
      | cons second rest =>
          rw [place]
          · split
            · exact (ih _).bind fun _ _ => .of_ok _
            · exact .of_error (Error.sparesTier_shape _)
          · simp

theorem failsOnly_nested (keys : Keys) (tokens : List Token) :
    FailsOnly Error.SparesTier (nested keys tokens) :=
  .foldlM (fun _ _ _ => failsOnly_place _ _ _) _

theorem failsOnly_combinations (keys : Keys) (text : Object) :
    FailsOnly Error.SparesTier (combinations keys text) := by
  have hcombine (found : List (String × Object)) (group : Object) (default : Value) :
      FailsOnly Error.SparesTier (combine keys found group default) := by
    cases default with
    | object entries =>
        rw [combine]
        split
        · exact .of_ok _
        · exact .of_ok _
    | _ => exact .of_error (Error.sparesTier_shape _)
  refine FailsOnly.filterMapM fun entry _ => ?_
  obtain ⟨name, node⟩ := entry
  dsimp only
  split
  · split
    · exact .of_ok _
    · split
      · exact (hcombine _ _ _).bind fun _ _ => .of_ok _
      · exact .of_ok _
  · exact .of_ok _

theorem failsOnly_textStyles (keys : Keys) (dictionary : Dictionary) (tokens : List Token) :
    FailsOnly Error.SparesTier (textStyles keys dictionary tokens) := by
  refine .bind (.foldlM (fun token _ tree => ?_) _) fun placed _ => .bind ?_ fun _ _ => .of_ok _
  · split
    · exact failsOnly_place _ _ _
    · exact .of_ok _
  · rw [withCombinations]
    split
    · exact (failsOnly_combinations _ _).map _
    · exact .of_ok _

end Figma

/-! ### Tiers -/

namespace Project

variable (project : Project) (files : FileTree) (tier : Tier)

theorem failsOnly_loadTier (patterns : List String) (extra : List Path) (reference : List String) :
    FailsOnly Error.SparesTier (project.loadTier files tier patterns extra reference).result := by
  have hexpand (texts : List String) :
      FailsOnly Error.SparesTier (files.expand project.root texts).result :=
    .of_eq_ok (files.result_expand project.root texts)
  refine Traced.failsOnly_bind (Traced.failsOnly_bind (hexpand _) fun included _ =>
    Traced.failsOnly_bind (hexpand _) fun found _ => .of_ok _) fun sources _ => ?_
  exact Traced.failsOnly_bind (Loading.failsOnly_dictionaryOfFiles files _ _ _) fun _ _ => .of_ok _

theorem failsOnly_importSheet (directory : Path) (name : String) (table : List Breakpoint) :
    FailsOnly Error.SparesTier (importSheet files directory name table).result := by
  have hsheets : FailsOnly Error.SparesTier (files.stylesheets directory importSheetName).result := by
    rw [FileTree.stylesheets]
    split
    · exact .of_ok _
    · exact .of_ok _
  refine Traced.failsOnly_bind hsheets fun sheets _ => ?_
  split
  · exact .of_ok _
  · refine Traced.failsOnly_bind ?_ fun _ _ => .of_ok _
    rw [Stylesheet.ImportSheet.text, Stylesheet.ImportSheet.sections_eq]
    exact .of_ok _

end Project

end DesignTokens
