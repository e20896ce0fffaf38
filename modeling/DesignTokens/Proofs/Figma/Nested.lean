import DesignTokens.Figma.Document
import DesignTokens.Proofs.Files.Loaded
import DesignTokens.Proofs.Resolution.Bare

/-!
# The tree of a dictionary, read again

The tokens of a dictionary are placed in a tree one by one. Those of a loaded dictionary
come in the order of a tree already, so that each is placed behind all that stand there: no
token lies in the way of another, and the tree has them in their order. Nothing in it is
handed down, and the tokens that are read from it resolve as the first ones did.
-/

namespace DesignTokens.Figma

open DesignTokens.Tree

/-- A token as it is placed in a tree. -/
structure Placed where
  path : TokenPath
  type : Option String
  value : Value

namespace Placed

/-- The token with one more step in front. -/
def under (name : String) (placed : Placed) : Placed :=
  { placed with path := name :: placed.path }

def leaf (keys : Keys) (placed : Placed) : Value :=
  Figma.leaf keys placed.type placed.value

def ofToken (token : Token) : Placed :=
  ⟨token.path, token.type, outputValue token⟩

/-- The token that is read where it was placed, below `base`. -/
def authored (base : TokenPath) (placed : Placed) : Authored :=
  ⟨base ++ placed.path, placed.type.elim .null .text, placed.value, [], .null, none⟩

end Placed

/-- The tree with each token placed in turn. -/
def placeAll (keys : Keys) (placed : List Placed) (tree : Object) : Except Error Object :=
  placed.foldlM (fun tree token => place (token.leaf keys) token.path tree) tree

/-- The tokens of the tree in their order. It has no other members, and a group has at least
one token. -/
inductive Nests (keys : Keys) : List Placed → Object → Prop
  | nil : Nests keys [] []
  | leaf {name : String} {placed : Placed} {rest : List Placed} {tree : Object}
      (hpath : placed.path = [name]) (hnew : name ∉ Entries.keys tree)
      (hrest : Nests keys rest tree) :
      Nests keys (placed :: rest) ((name, placed.leaf keys) :: tree)
  | group {name : String} {inner rest : List Placed} {group tree : Object}
      (hinner : Nests keys inner group) (hne : inner ≠ []) (hnew : name ∉ Entries.keys tree)
      (hrest : Nests keys rest tree) :
      Nests keys (inner.map (Placed.under name) ++ rest) ((name, .object group) :: tree)

variable {keys : Keys} {placed : List Placed} {tree : Object}

theorem nested_eq_placeAll (tokens : List Token) :
    nested keys tokens = placeAll keys (tokens.map Placed.ofToken) [] := by
  rw [placeAll, List.foldlM_map]
  rfl

/-! ## Placing -/

theorem place_cons {leaf : Value} {name : String} {steps : TokenPath} (hsteps : steps ≠ [])
    {inner : Object} (hinner : (Entries.get? tree name).getD (.object []) = .object inner) :
    place leaf (name :: steps) tree =
      (fun group => Entries.insert tree name (.object group)) <$> place leaf steps inner := by
  cases steps with
  | nil => exact absurd rfl hsteps
  | cons step steps =>
      rw [place, hinner]
      · rfl
      · simp

/-- A member whose name is not there yet comes last, and what follows it in the tree is still
apart from what stands there. -/
theorem insert_apart {before : Object} {name : String} {value : Value}
    (hapart : ∀ other ∈ Entries.keys before, other ∉ Entries.keys ((name, value) :: tree))
    (hnew : name ∉ Entries.keys tree) :
    Entries.get? before name = none ∧
      Entries.insert before name value = before ++ [(name, value)] ∧
        ∀ other ∈ Entries.keys (before ++ [(name, value)]), other ∉ Entries.keys tree := by
  have habsent : Entries.get? before name = none :=
    Entries.get?_eq_none_iff.2 fun hmem => hapart name hmem List.mem_cons_self
  refine ⟨habsent, Entries.insert_of_get?_eq_none habsent value, fun other hother => ?_⟩
  rw [Entries.keys, List.map_append, List.mem_append] at hother
  rcases hother with hold | hlast
  · exact fun hmem => hapart other hold (List.mem_cons_of_mem _ hmem)
  · rwa [List.mem_singleton.1 hlast]

/-- Tokens that start with the same step are placed in one group. -/
theorem placeAll_under {name : String} (hne : placed ≠ [])
    (hpaths : ∀ token ∈ placed, token.path ≠ []) {inner group : Object}
    (hinner : (Entries.get? tree name).getD (.object []) = .object inner)
    (hgroup : placeAll keys placed inner = .ok group) :
    placeAll keys (placed.map (Placed.under name)) tree =
      .ok (Entries.insert tree name (.object group)) := by
  induction placed generalizing tree inner with
  | nil => exact absurd rfl hne
  | cons token rest ih =>
      rw [List.forall_mem_cons] at hpaths
      rw [placeAll, List.foldlM_cons] at hgroup
      obtain ⟨next, hnext, hrest⟩ := Failing.bind_eq_ok.1 hgroup
      have hfirst : place (token.leaf keys) (name :: token.path) tree =
          .ok (Entries.insert tree name (.object next)) := by
        rw [place_cons hpaths.1 hinner, hnext]
        rfl
      rw [List.map_cons, placeAll, List.foldlM_cons]
      apply Failing.bind_eq_ok.2 ⟨_, hfirst, ?_⟩
      -- The group stands now, and the other tokens go on in it.
      cases rest with
      | nil =>
          cases hrest
          rfl
      | cons second others =>
          have hstands : (Entries.get? (Entries.insert tree name (.object next)) name).getD
              (.object []) = .object next := by
            rw [Entries.get?_insert, if_pos (beq_self_eq_true name), Option.getD_some]
          have hlater := ih (List.cons_ne_nil _ _) hpaths.2 hstands hrest
          rwa [Entries.insert_insert] at hlater

namespace Nests

theorem exists_cons (hnests : Nests keys placed tree) : ∀ token ∈ placed,
    ∃ name ∈ Entries.keys tree, ∃ steps, token.path = name :: steps := by
  induction hnests with
  | nil => simp
  | @leaf name first rest tree hpath _ _ ih =>
      intro token htoken
      rcases List.mem_cons.1 htoken with rfl | hlater
      · exact ⟨name, List.mem_cons_self, [], hpath⟩
      · obtain ⟨other, hother, steps, hsteps⟩ := ih token hlater
        exact ⟨other, List.mem_cons_of_mem _ hother, steps, hsteps⟩
  | @group name inner rest group tree _ _ _ _ _ ih =>
      intro token htoken
      rcases List.mem_append.1 htoken with hhere | hlater
      · obtain ⟨below, -, rfl⟩ := List.mem_map.1 hhere
        exact ⟨name, List.mem_cons_self, below.path, rfl⟩
      · obtain ⟨other, hother, steps, hsteps⟩ := ih token hlater
        exact ⟨other, List.mem_cons_of_mem _ hother, steps, hsteps⟩

theorem path_ne_nil (hnests : Nests keys placed tree) : ∀ token ∈ placed, token.path ≠ [] := by
  intro token htoken
  obtain ⟨name, -, steps, hsteps⟩ := hnests.exists_cons token htoken
  exact hsteps ▸ List.cons_ne_nil name steps

/-- Every name at the top of the tree is the first step to a token. -/
theorem exists_of_mem_keys (hnests : Nests keys placed tree) {name : String}
    (hname : name ∈ Entries.keys tree) : ∃ token ∈ placed, name ∈ token.path := by
  induction hnests with
  | nil => simp [Entries.keys] at hname
  | @leaf first token rest tree hpath _ _ ih =>
      rcases List.mem_cons.1 hname with rfl | hlater
      · exact ⟨token, List.mem_cons_self, by simp [hpath]⟩
      · obtain ⟨other, hother, hstep⟩ := ih hlater
        exact ⟨other, List.mem_cons_of_mem _ hother, hstep⟩
  | @group first inner rest group tree _ hne _ _ _ ih =>
      rcases List.mem_cons.1 hname with rfl | hlater
      · obtain ⟨token, htoken⟩ := List.exists_mem_of_ne_nil inner hne
        exact ⟨token.under _, List.mem_append_left _ (List.mem_map_of_mem htoken),
          List.mem_cons_self⟩
      · obtain ⟨other, hother, hstep⟩ := ih hlater
        exact ⟨other, List.mem_append_right _ hother, hstep⟩

theorem nodup_paths (hnests : Nests keys placed tree) : (placed.map Placed.path).Nodup := by
  have hfresh : ∀ {name : String} {rest : List Placed} {tree : Object}, Nests keys rest tree →
      name ∉ Entries.keys tree → ∀ steps, name :: steps ∉ rest.map Placed.path := by
    intro name rest tree hrest hnew steps hmem
    obtain ⟨token, htoken, hpath⟩ := List.mem_map.1 hmem
    obtain ⟨other, hother, _, hsteps⟩ := hrest.exists_cons token htoken
    rw [hpath, List.cons.injEq] at hsteps
    exact hnew (hsteps.1 ▸ hother)
  induction hnests with
  | nil => exact List.nodup_nil
  | leaf hpath hnew hrest ih =>
      rw [List.map_cons, List.nodup_cons, hpath]
      exact ⟨hfresh hrest hnew [], ih⟩
  | @group name inner rest group tree _ _ hnew hrest ihInner ih =>
      have hinner : (inner.map (Placed.under name)).map Placed.path =
          (inner.map Placed.path).map (List.cons name) := by
        rw [List.map_map, List.map_map]
        rfl
      rw [List.map_append, hinner, List.nodup_append']
      refine ⟨ihInner.map (List.cons_injective), ih, ?_⟩
      intro path hhere hlater
      obtain ⟨steps, -, rfl⟩ := List.mem_map.1 hhere
      exact hfresh hrest hnew steps hlater

/-- Tokens in the order of a tree are placed as that tree, behind what stands there. -/
theorem placeAll_eq (hnests : Nests keys placed tree) {before : Object}
    (hapart : ∀ name ∈ Entries.keys before, name ∉ Entries.keys tree) :
    placeAll keys placed before = .ok (before ++ tree) := by
  induction hnests generalizing before with
  | nil =>
      rw [List.append_nil]
      rfl
  | @leaf name token rest tree hpath hnew _ ih =>
      obtain ⟨-, hinsert, hlater⟩ := insert_apart hapart hnew
      have hfirst : place (token.leaf keys) token.path before =
          .ok (before ++ [(name, token.leaf keys)]) := by
        rw [hpath, place, hinsert]
      rw [placeAll, List.foldlM_cons]
      apply Failing.bind_eq_ok.2 ⟨_, hfirst, ?_⟩
      exact (ih hlater).trans (by rw [List.append_assoc, List.singleton_append])
  | @group name inner rest group tree hinner hne hnew _ ihInner ih =>
      obtain ⟨habsent, hinsert, hlater⟩ := insert_apart hapart hnew
      have hgroup : placeAll keys inner [] = .ok group := ihInner (by simp [Entries.keys])
      have hstart : (Entries.get? before name).getD (.object []) = .object [] := by
        rw [habsent, Option.getD_none]
      have hfirst := placeAll_under hne hinner.path_ne_nil hstart hgroup
      rw [hinsert] at hfirst
      rw [placeAll, List.foldlM_append]
      apply Failing.bind_eq_ok.2 ⟨_, hfirst, ?_⟩
      exact (ih hlater).trans (by rw [List.append_assoc, List.singleton_append])

end Nests

/-! ## The order of a tree -/

theorem exists_eq_map_under {name : String} {paths : List TokenPath}
    (hpaths : placed.map Placed.path = paths.map (List.cons name)) :
    ∃ inner : List Placed, placed = inner.map (Placed.under name) ∧
      inner.map Placed.path = paths := by
  induction paths generalizing placed with
  | nil => exact ⟨[], List.map_eq_nil_iff.1 hpaths, rfl⟩
  | cons path paths ih =>
      obtain ⟨token, rest, rfl, hpath, hrest⟩ := List.map_eq_cons_iff.1 hpaths
      obtain ⟨inner, rfl, hinner⟩ := ih hrest
      refine ⟨⟨path, token.type, token.value⟩ :: inner, ?_, congrArg (path :: ·) hinner⟩
      obtain ⟨_, type, value⟩ := token
      cases hpath
      rfl

mutual

theorem exists_nests_of_member (value : Value) (hunique : value.UniqueKeys) {placed : List Placed}
    (hpaths : placed.map Placed.path = (memberLeaves keys value).map Leaf.path) :
    (∃ token, placed = [token] ∧ token.path = []) ∨ ∃ tree, Nests keys placed tree := by
  cases value with
  | object entries =>
      rw [memberLeaves] at hpaths
      split at hpaths
      · obtain ⟨token, rest, rfl, hpath, hrest⟩ := List.map_eq_cons_iff.1 hpaths
        obtain rfl := List.map_eq_nil_iff.1 hrest
        exact .inl ⟨token, rfl, hpath⟩
      · rw [List.map_map] at hpaths
        obtain ⟨tree, hnests, -⟩ := exists_nests entries hunique.nodup
          (fun entry hmem => hunique.of_mem hmem) hpaths
        exact .inr ⟨tree, hnests⟩
  | _ =>
      obtain rfl := List.map_eq_nil_iff.1 hpaths
      exact .inr ⟨[], .nil⟩
termination_by structural value

/-- Tokens with the paths of a tree have the order of a tree. -/
theorem exists_nests (entries : List (String × Value)) (hnodup : (Entries.keys entries).Nodup)
    (hunique : ∀ entry ∈ entries, entry.2.UniqueKeys) {placed : List Placed}
    (hpaths : placed.map Placed.path = (leaves keys entries).map Leaf.path) :
    ∃ tree, Nests keys placed tree ∧ Entries.keys tree ⊆ Entries.keys entries := by
  cases entries with
  | nil =>
      obtain rfl := List.map_eq_nil_iff.1 hpaths
      exact ⟨[], .nil, List.Subset.refl _⟩
  | cons entry rest =>
      obtain ⟨name, value⟩ := entry
      obtain ⟨hnew, hnodupRest⟩ := List.nodup_cons.1 hnodup
      rw [List.forall_mem_cons] at hunique
      rw [leaves, List.map_append] at hpaths
      obtain ⟨here, later, rfl, hhere, hlater⟩ := List.map_eq_append_iff.1 hpaths
      obtain ⟨tree, hnests, hkeys⟩ := exists_nests rest hnodupRest hunique.2 hlater
      have hkept : Entries.keys tree ⊆ Entries.keys ((name, value) :: rest) :=
        fun _ hmem => List.mem_cons_of_mem _ (hkeys hmem)
      by_cases hname : isReserved name
      · rw [if_pos hname] at hhere
        obtain rfl := List.map_eq_nil_iff.1 hhere
        exact ⟨tree, hnests, hkept⟩
      · have hunder : here.map Placed.path =
            ((memberLeaves keys value).map Leaf.path).map (List.cons name) := by
          rw [hhere, if_neg hname, List.map_map, List.map_map]
          rfl
        obtain ⟨inner, rfl, hinner⟩ := exists_eq_map_under hunder
        have hfresh : name ∉ Entries.keys tree := fun hmem => hnew (hkeys hmem)
        have hsubset : ∀ member, Entries.keys ((name, member) :: tree) ⊆
            Entries.keys ((name, value) :: rest) := fun _ => List.cons_subset_cons _ hkeys
        rcases exists_nests_of_member value hunique.1 hinner with
          ⟨token, rfl, hpath⟩ | ⟨group, hgroup⟩
        · have hstep : (token.under name).path = [name] := congrArg (List.cons name) hpath
          exact ⟨_, .leaf hstep hfresh hnests, hsubset _⟩
        · -- A group without tokens is not made again.
          by_cases hne : inner = []
          · subst hne
            exact ⟨tree, hnests, hkept⟩
          · exact ⟨_, .group hgroup hne hfresh hnests, hsubset _⟩
termination_by structural entries

end

/-! ## Reading the tree -/

/-- No step to a token is a name that is kept for the format. -/
def Readable (placed : List Placed) : Prop :=
  ∀ token ∈ placed, ∀ step ∈ token.path, isReserved step = false

theorem Readable.of_group {name : String} {inner rest : List Placed}
    (hreadable : Readable (inner.map (Placed.under name) ++ rest)) :
    Readable inner ∧ Readable rest := by
  obtain ⟨hhere, hlater⟩ := List.forall_mem_append.1 hreadable
  refine ⟨fun token htoken step hstep => ?_, hlater⟩
  exact hhere (token.under name) (List.mem_map_of_mem htoken) step (List.mem_cons_of_mem _ hstep)

/-- What a leaf holds. -/
def Placed.entries (placed : Placed) : Object :=
  [(Keys.dtcg.type, placed.type.elim .null .text), (Keys.dtcg.value, placed.value)]

theorem Placed.leaf_dtcg (placed : Placed) : placed.leaf .dtcg = .object placed.entries := by
  obtain ⟨path, type, value⟩ := placed
  cases type <;> rfl

theorem delegateMember_leaf (placed : Placed) :
    delegateMember .dtcg .null [] (placed.leaf .dtcg) = placed.leaf .dtcg := by
  rw [placed.leaf_dtcg, delegateMember]
  apply (if_pos rfl).trans
  apply congrArg Value.object
  exact settle_eq_self (.inr rfl) (.inl rfl)

theorem authoredMember_leaf (base : TokenPath) (placed : Placed) :
    authoredMember .dtcg base (placed.leaf .dtcg) =
      .ok [⟨base, placed.type.elim .null .text, placed.value, [], .null, none⟩] := by
  rw [placed.leaf_dtcg]
  rfl

theorem Placed.authored_comp_under (base : TokenPath) (name : String) :
    Placed.authored base ∘ Placed.under name = Placed.authored (base ++ [name]) := by
  funext token
  simp [Placed.authored, Placed.under]

namespace Nests

/-- The names in the tree are not kept for the format. -/
theorem not_isReserved (hnests : Nests keys placed tree) (hreadable : Readable placed) :
    ∀ name ∈ Entries.keys tree, isReserved name = false := by
  intro name hname
  obtain ⟨token, htoken, hstep⟩ := hnests.exists_of_mem_keys hname
  exact hreadable token htoken name hstep

theorem get?_eq_none (hnests : Nests keys placed tree) (hreadable : Readable placed)
    (key : String) (hkey : isReserved key = true) : Entries.get? tree key = none := by
  rw [Entries.get?_eq_none_iff]
  intro hmem
  rw [hnests.not_isReserved hreadable key hmem] at hkey
  cases hkey

/-- The tree is a group without a type and extensions. -/
theorem no_properties (hnests : Nests .dtcg placed tree) (hreadable : Readable placed) :
    typeBelow .dtcg tree .null = .null ∧ extensionsBelow .dtcg tree [] = [] ∧
      Entries.contains tree Keys.dtcg.value = false := by
  have htype := hnests.get?_eq_none hreadable Keys.dtcg.type (by decide)
  have hextensions := hnests.get?_eq_none hreadable Keys.dtcg.extensions (by decide)
  have hvalue := hnests.get?_eq_none hreadable Keys.dtcg.value (by decide)
  rw [typeBelow, htype, extensionsBelow, hextensions, Entries.contains, hvalue]
  exact ⟨rfl, rfl, rfl⟩

/-- Nothing is handed down in the tree. -/
theorem delegateMembers_eq_self (hnests : Nests .dtcg placed tree)
    (hreadable : Readable placed) : delegateMembers .dtcg .null [] tree = tree := by
  have hname : ∀ {name : String} {value : Value} {rest : Object}, isReserved name = false →
      delegateMembers .dtcg .null [] ((name, value) :: rest) =
        (name, delegateMember .dtcg .null [] value) :: delegateMembers .dtcg .null [] rest := by
    intro name value rest hreserved
    have hext : ¬ (name = Keys.dtcg.extensions ∧ value.isObject = true) := by
      rintro ⟨rfl, -⟩
      exact absurd hreserved (by decide)
    rw [delegateMembers, if_neg hext, hreserved, if_neg Bool.false_ne_true]
  have hall := hnests.not_isReserved hreadable
  induction hnests with
  | nil => rfl
  | leaf _ _ _ ih =>
      rw [Entries.keys, List.map_cons, List.forall_mem_cons] at hall
      rw [hname hall.1, delegateMember_leaf, ih (List.forall_mem_cons.1 hreadable).2 hall.2]
  | @group name inner rest group tree hinner hne _ _ ihInner ih =>
      rw [Entries.keys, List.map_cons, List.forall_mem_cons] at hall
      obtain ⟨hinnerReadable, hrestReadable⟩ := hreadable.of_group
      obtain ⟨htype, hextensions, hvalue⟩ := hinner.no_properties hinnerReadable
      have hgroup : delegateMember .dtcg .null [] (.object group) = .object group := by
        rw [delegateMember, htype, hextensions, hvalue, if_neg Bool.false_ne_true]
        exact congrArg Value.object (ihInner hinnerReadable (hinner.not_isReserved hinnerReadable))
      rw [hname hall.1, hgroup, ih hrestReadable hall.2]

/-- The tokens are read in their order. -/
theorem authored_eq (hnests : Nests .dtcg placed tree) (hreadable : Readable placed)
    (base : TokenPath) : authored .dtcg base tree = .ok (placed.map (Placed.authored base)) := by
  have hall := hnests.not_isReserved hreadable
  induction hnests generalizing base with
  | nil => rfl
  | @leaf name token rest tree hpath _ _ ih =>
      rw [Entries.keys, List.map_cons, List.forall_mem_cons] at hall
      rw [authored, hall.1, if_neg Bool.false_ne_true, authoredMember_leaf,
        ih (List.forall_mem_cons.1 hreadable).2 base hall.2, List.map_cons, Placed.authored, hpath]
      rfl
  | @group name inner rest group tree hinner hne _ _ ihInner ih =>
      rw [Entries.keys, List.map_cons, List.forall_mem_cons] at hall
      obtain ⟨hinnerReadable, hrestReadable⟩ := hreadable.of_group
      have hvalue := hinner.get?_eq_none hinnerReadable Keys.dtcg.value (by decide)
      have hgroup : authoredMember .dtcg (base ++ [name]) (.object group) =
          .ok (inner.map (Placed.authored (base ++ [name]))) := by
        rw [authoredMember, hvalue]
        exact ihInner hinnerReadable (base ++ [name]) (hinner.not_isReserved hinnerReadable)
      rw [authored, hall.1, if_neg Bool.false_ne_true, hgroup, ih hrestReadable base hall.2,
        List.map_append, List.map_map, Placed.authored_comp_under]
      rfl

end Nests

/-! ## The dictionary of the tree -/

theorem tokensOf_of_nests (hnests : Nests .dtcg placed tree) (hreadable : Readable placed) :
    Loading.tokensOf .dtcg tree = .ok (placed.map (Placed.authored [])) := by
  obtain ⟨htype, hextensions, hvalue⟩ := hnests.no_properties hreadable
  have hdelegate : delegate .dtcg tree = tree := by
    rw [delegate, htype, hextensions, hvalue, if_neg Bool.false_ne_true]
    exact hnests.delegateMembers_eq_self hreadable
  rw [Loading.tokensOf, hdelegate]
  exact hnests.authored_eq hreadable []

/-- A tree in which no object names a key twice has one leaf at each path. -/
theorem nodup_map_path_leaves (hunique : (Value.object tree).UniqueKeys) :
    ((leaves keys tree).map Leaf.path).Nodup := by
  have hpaths : ((leaves keys tree).map fun leaf => (⟨leaf.path, none, .null⟩ : Placed)).map
      Placed.path = (leaves keys tree).map Leaf.path := by
    rw [List.map_map]
    rfl
  obtain ⟨other, hnests, -⟩ :=
    exists_nests tree hunique.nodup (fun _ hmem => hunique.of_mem hmem) hpaths
  exact hpaths ▸ hnests.nodup_paths

/-- A resolved token is written as it was authored. -/
theorem outputValue_eq_original {lookup : TokenPath → Option Value} {token : Token}
    (hreplaced : token.original.Replaced lookup token.value) :
    outputValue token = token.original := by
  rw [outputValue]
  split
  · rfl
  · next hplain =>
      rw [Value.usesReferences, Bool.not_eq_true', Bool.not_eq_false, List.isEmpty_iff] at hplain
      exact hreplaced.eq_self _ hplain

/-- The tokens of a loaded tree, placed and read again, are those that were read first,
without descriptions and extensions. -/
theorem map_authored_ofToken {tokens : List Authored} {lead : Option String} {out : List Token}
    (hnodup : (tokens.map Authored.path).Nodup) (hsource : ∀ token ∈ tokens, token.source = none)
    (hout : Resolution.resolve tokens lead = .ok out) :
    (out.map Placed.ofToken).map (Placed.authored []) = tokens.map Authored.bare := by
  obtain ⟨known, -, hpairs⟩ := Resolution.settled_of_resolve hout
  rw [Resolution.distinct_eq_self hnodup] at hpairs
  calc (out.map Placed.ofToken).map (Placed.authored [])
      = out.map fun token =>
          (⟨token.path, token.type.elim .null .text, token.original, [], .null, none⟩ :
            Authored) := by
        rw [List.map_map]
        apply List.map_congr_left
        intro token htoken
        have horiginal := outputValue_eq_original (Resolution.resolved_of_mem hout htoken).2
        simp [Placed.authored, Placed.ofToken, horiginal]
    _ = tokens.map fun token => ⟨token.path, token.type, token.value, [], .null, none⟩ := by
        apply Paired.map_eq_map hpairs
        intro authored token hpair
        rw [hpair.1.path, hpair.1.type, hpair.1.original]
    _ = tokens.map Authored.bare := by
        apply List.map_congr_left
        intro token htoken
        rw [Authored.bare, hsource token htoken]

theorem map_fst_contents_dtcg :
    (contents .dtcg tree).map Prod.fst = (leaves .dtcg tree).map Leaf.path := by
  have hkept : (leaves .dtcg tree).filter (Leaf.isKept .dtcg) = leaves .dtcg tree := by
    rw [List.filter_eq_self]
    intro leaf hleaf
    have hext := Loading.not_mem_extensions_of_hasLeaf (List.mem_map_of_mem hleaf)
    exact decide_eq_true hext
  rw [contents]
  split
  · rw [List.map_map]
    rfl
  · rw [hkept, List.map_map]
    rfl

/-- The tree of all tokens of a dictionary that was loaded from a tree loads again. It has
the same tokens in the same order, with path, name, type and both values, and nothing else. -/
theorem nested_reloads {lead : Option String} {dictionary : Dictionary}
    (hunique : (Value.object tree).UniqueKeys)
    (hloaded : Loading.dictionaryOfTree tree true lead = .ok dictionary) :
    ∃ document again, nested (Keys.of true) dictionary.tokens = .ok document ∧
      Loading.dictionaryOfTree document true lead = .ok again ∧
        again.tokens = dictionary.tokens.map Token.bare := by
  obtain ⟨tokens, htokens, hout⟩ := Loading.dictionaryOfTree_eq_ok_iff.1 hloaded
  have hpaths : tokens.map Authored.path = (leaves .dtcg tree).map Leaf.path :=
    (Loading.map_path_of_tokensOf (Keys.apart_of true) hunique htokens).trans map_fst_contents_dtcg
  have hnodup : (tokens.map Authored.path).Nodup := hpaths ▸ nodup_map_path_leaves hunique
  have hplaced : (dictionary.tokens.map Placed.ofToken).map Placed.path =
      (leaves .dtcg tree).map Leaf.path := by
    rw [← hpaths, ← Resolution.distinct_eq_self hnodup, ← Resolution.map_path_of_resolve hout,
      List.map_map]
    rfl
  obtain ⟨document, hnests, -⟩ :=
    exists_nests tree hunique.nodup (fun _ hmem => hunique.of_mem hmem) hplaced
  have hdocument : nested .dtcg dictionary.tokens = .ok document := by
    rw [nested_eq_placeAll]
    exact hnests.placeAll_eq (by simp [Entries.keys])
  -- The paths come from a tree that was read, so that no step is kept for the format.
  have hreadable : Readable (dictionary.tokens.map Placed.ofToken) := by
    intro token htoken
    have hleaf : HasLeaf .dtcg tree token.path := by
      rw [HasLeaf, ← hplaced]
      exact List.mem_map_of_mem htoken
    exact not_isReserved_of_hasLeaf tree hleaf
  have hsource := Loading.source_of_tokensOf htokens
  have hread := tokensOf_of_nests hnests hreadable
  rw [map_authored_ofToken hnodup hsource hout] at hread
  have hbare : ((dictionary.tokens.map Token.bare).map Token.path).Nodup := by
    rw [List.map_map]
    exact dictionary.nodup_paths
  have hresolved := Resolution.resolve_bare hnodup hsource hout
  exact ⟨document, ⟨_, hbare⟩, hdocument,
    Loading.dictionaryOfTree_eq_ok_iff.2 ⟨_, hread, hresolved⟩, rfl⟩

/-- A color, and a token beside it that refers to it and has no type. -/
def inks : Object :=
  [("color", .object [
    ("$type", .text "color"),
    ("ink", .object [("$value", .text "#111"), ("$description", .text "Text")]),
    ("edge", .object [("$type", .null),
      ("$value", .list [.text "\x7bcolor.ink\x7d", .text "solid"])])])]

def inkTokens : Dictionary where
  tokens :=
    [⟨["color", "ink"], "color-ink", some "color", .text "#111", .text "#111", none, some "Text",
        [], none⟩,
      ⟨["color", "edge"], "color-edge", none, .list [.text "#111", .text "solid"],
        .list [.text "\x7bcolor.ink\x7d", .text "solid"], none, none, [], none⟩]
  nodup_paths := by decide

theorem dictionary_inks : Loading.dictionaryOfTree inks true none = .ok inkTokens := by
  have hauthored : Loading.tokensOf (Keys.of true) inks = .ok
      [⟨["color", "ink"], .text "color", .text "#111", [], .text "Text", none⟩,
        ⟨["color", "edge"], .null, .list [.text "\x7bcolor.ink\x7d", .text "solid"], [], .null,
          none⟩] := rfl
  exact Loading.dictionaryOfTree_eq_ok_iff.2 ⟨_, hauthored, by cbv⟩

theorem nested_reloads_inks : ∃ document again,
    nested (Keys.of true) inkTokens.tokens = .ok document ∧
      Loading.dictionaryOfTree document true none = .ok again ∧
        again.tokens = inkTokens.tokens.map Token.bare :=
  have hunique : (Value.object inks).UniqueKeys := by
    simp [inks, Value.UniqueKeys, Value.EntriesUnique, Value.ItemsUnique, Entries.keys]
  nested_reloads hunique dictionary_inks

end DesignTokens.Figma
