import Mathlib.Data.List.Chain
import Mathlib.Data.List.Nodup
import Mathlib.Data.List.Perm.Subperm
import DesignTokens.Proofs.Resolution.Ends
import DesignTokens.Proofs.Resolution.Replacement

/-!
# The search for values

Resolving a token walks depth first through the tokens it refers to. Two facts carry
the walk. The known values are settled: each was found from values that were known
before it, which gives both the values themselves and an order of the tokens without
cycles. And the open tokens form a chain of references, no two of them written alike, so
that the search stops at a token that is written like one of them and nowhere else.
-/

namespace DesignTokens.Value

variable {m : Type → Type} [Monad m] [LawfulMonad m]

theorem substitutePieces_plain (valueOf : String → m Value) (chars : List Char)
    (rest : List Piece) :
    substitutePieces valueOf (.plain chars :: rest) =
      (chars ++ ·) <$> substitutePieces valueOf rest := by
  simp [substitutePieces, Piece.target?, Piece.source]

theorem substitutePieces_reference (valueOf : String → m Value) (inner : List Char)
    (rest : List Piece) :
    substitutePieces valueOf (.reference inner :: rest) =
      valueOf (Reference.target inner) >>= fun value =>
        (value.embedded.toList ++ ·) <$> substitutePieces valueOf rest := by
  simp [substitutePieces, Piece.target?, Reference.target]

end DesignTokens.Value

namespace DesignTokens.Resolution

variable {tokens : List Authored}

/-- Values that were found one after the other, each from the earlier ones. -/
inductive Settled (tokens : List Authored) : Known → Prop
  | nil : Settled tokens []
  | snoc {known : Known} {token : Authored} {value : Value} (hknown : Settled tokens known)
      (hmem : token ∈ tokens) (hnew : Entries.get? known token.path = none)
      (hvalue : token.value.Replaced (Entries.get? known) value) :
      Settled tokens (known ++ [(token.path, value)])

/-- What resolving one more value does to the known ones while some tokens are open:
none is lost or changed, and no open token is added. -/
structure Grows (tokens : List Authored) (open_ : List String) (known later : Known) : Prop where
  extends_known : known <+: later
  settled : Settled tokens later
  apart : ∀ entry ∈ later, entry ∈ known ∨ entry.1.dotted ∉ open_

namespace Grows

variable {open_ : List String} {known later last : Known}

theorem refl (hknown : Settled tokens known) : Grows tokens open_ known known :=
  ⟨List.prefix_rfl, hknown, fun _ hmem => .inl hmem⟩

theorem trans (hfirst : Grows tokens open_ known later) (hsecond : Grows tokens open_ later last) :
    Grows tokens open_ known last where
  extends_known := hfirst.extends_known.trans hsecond.extends_known
  settled := hsecond.settled
  apart := by
    intro entry hmem
    rcases hsecond.apart entry hmem with hlater | hnew
    · exact hfirst.apart entry hlater
    · exact .inr hnew

theorem get?_eq (hgrows : Grows tokens open_ known later) (path : TokenPath) (value : Value)
    (hvalue : Entries.get? known path = some value) : Entries.get? later path = some value := by
  obtain ⟨added, rfl⟩ := hgrows.extends_known
  exact Entries.get?_append_of_eq_some hvalue added

end Grows

/-- The token at the first path has a reference to the second. -/
def RefersTo (tokens : List Authored) (referrer target : TokenPath) : Prop :=
  ∃ token ∈ tokens, token.path = referrer ∧
    ∃ reference ∈ token.value.references, Reference.path reference = target

/-- Tokens that are open at one time: each refers to the next, and no two of them are written
alike with dots. -/
structure IsOpen (tokens : List Authored) (open_ : List TokenPath) : Prop where
  chain : open_.IsChain (RefersTo tokens)
  nodup : (open_.map TokenPath.dotted).Nodup
  subset : open_ ⊆ tokens.map Authored.path

/-- No more tokens can be open than there are. -/
theorem IsOpen.length_le {open_ : List TokenPath} (hopen : IsOpen tokens open_) :
    open_.length ≤ tokens.length := by
  simpa using (List.subperm_of_subset hopen.nodup.of_map hopen.subset).length_le

theorem IsOpen.snoc {open_ : List TokenPath} (hopen : IsOpen tokens open_) {token : Authored}
    (hmem : token ∈ tokens) (hlink : ∀ last ∈ open_.getLast?, RefersTo tokens last token.path)
    (hnew : token.path.dotted ∉ open_.map TokenPath.dotted) :
    IsOpen tokens (open_ ++ [token.path]) where
  chain := hopen.chain.append (by simp) (by simpa using hlink)
  nodup := by
    rw [List.map_append, List.map_singleton, ← List.concat_eq_append, List.nodup_concat]
    exact ⟨hnew, hopen.nodup⟩
  subset := by
    rw [List.append_subset]
    exact ⟨hopen.subset, by simpa using ⟨token, hmem, rfl⟩⟩

/-- The two ways in which a resolution can fail. -/
inductive Fault (tokens : List Authored) : Error → Prop
  /-- A token refers to nothing. -/
  | missing {owner : Authored} {reference : String} (howner : owner ∈ tokens)
      (hmem : reference ∈ owner.value.references)
      (habsent : ∀ token ∈ tokens, token.path ≠ Reference.path reference) :
      Fault tokens (Resolution.missing owner reference)
  /-- A chain of references comes to a token that is written like one of its own. -/
  | cycle {open_ : List TokenPath} {last : TokenPath}
      (hchain : (open_ ++ [last]).IsChain (RefersTo tokens))
      (hmem : last.dotted ∈ open_.map TokenPath.dotted) :
      Fault tokens (.problem (.cycle ((open_ ++ [last]).map TokenPath.dotted)) none)

theorem mem_of_find?_eq_some {path : TokenPath} {token : Authored}
    (hfind : find? tokens path = some token) : token ∈ tokens ∧ token.path = path :=
  ⟨List.mem_of_find?_eq_some hfind, by simpa using List.find?_some hfind⟩

theorem ne_of_find?_eq_none {path : TokenPath} (hfind : find? tokens path = none) :
    ∀ token ∈ tokens, token.path ≠ path := by
  simpa [find?] using hfind

/-! ## One value -/

section Substitution

variable {open_ : List String} {bad : Error → Prop}
variable {valueOf : String → StateT Known (Except Error) Value}

/-- Resolving the references `references` gives the values of the tokens they name. -/
def Delivers (tokens : List Authored) (open_ : List String) (bad : Error → Prop)
    (valueOf : String → StateT Known (Except Error) Value) (references : List String) : Prop :=
  ∀ reference ∈ references, ∀ known, Settled tokens known →
    Ends (valueOf reference) known
      (fun value later => Grows tokens open_ known later ∧
        Entries.get? later (Reference.path reference) = some value) bad

theorem Delivers.subset {some all : List String} (hdelivers : Delivers tokens open_ bad valueOf all)
    (hsubset : some ⊆ all) : Delivers tokens open_ bad valueOf some :=
  fun reference hmem => hdelivers reference (hsubset hmem)

theorem substitutePieces_ends (pieces : List Piece)
    (hdelivers : Delivers tokens open_ bad valueOf (pieces.filterMap Piece.target?))
    {known : Known} (hknown : Settled tokens known) :
    Ends (Value.substitutePieces valueOf pieces) known
      (fun out later => Grows tokens open_ known later ∧
        Piece.Joined (Entries.get? later) pieces out) bad := by
  induction pieces generalizing known with
  | nil => exact Ends.of_return ⟨.refl hknown, .nil⟩
  | cons piece rest ih =>
      have hrest : Delivers tokens open_ bad valueOf (rest.filterMap Piece.target?) :=
        hdelivers.subset (List.Sublist.filterMap _ (List.sublist_cons_self _ _)).subset
      cases piece with
      | plain chars =>
          rw [Value.substitutePieces_plain]
          apply (ih hrest hknown).map
          intro out later hout
          exact ⟨hout.1, .plain hout.2⟩
      | reference inner =>
          have hfirst := hdelivers (Reference.target inner)
            (by simp [Piece.target?, Reference.target]) known hknown
          rw [Value.substitutePieces_reference]
          apply hfirst.bind
          intro value later hvalue
          apply (ih hrest hvalue.1.settled).map
          intro out last hout
          have hkept := hout.1.get?_eq _ _ hvalue.2
          exact ⟨hvalue.1.trans hout.1, .reference hkept hout.2⟩

theorem substituteText_ends (text : String)
    (hdelivers : Delivers tokens open_ bad valueOf (Reference.targets text))
    {known : Known} (hknown : Settled tokens known) :
    Ends (Value.substituteText valueOf text) known
      (fun value later => Grows tokens open_ known later ∧
        (Value.text text).Replaced (Entries.get? later) value) bad := by
  rw [Value.substituteText]
  cases halias : Reference.alias? text with
  | some target =>
      have htargets := Reference.targets_of_alias? halias
      apply (hdelivers target (by simp [htargets]) known hknown).mono
      intro value later hvalue
      exact ⟨hvalue.1, .inl ⟨target, Reference.alias?_eq_some_iff.1 halias, hvalue.2⟩⟩
  | none =>
      apply (substitutePieces_ends _ hdelivers hknown).bind
      intro out later hout
      have hexpanded := Piece.Joined.expanded none (by simp) hout.2
      exact Ends.of_return
        ⟨hout.1, .inr ⟨Reference.alias?_eq_none_iff.1 halias, out, hexpanded, rfl⟩⟩

mutual

/-- Resolving a value gives the value with its references replaced. -/
theorem substitute_ends (value : Value)
    (hdelivers : Delivers tokens open_ bad valueOf value.references)
    {known : Known} (hknown : Settled tokens known) :
    Ends (value.substitute valueOf) known
      (fun result later => Grows tokens open_ known later ∧
        value.Replaced (Entries.get? later) result) bad := by
  cases value with
  | text s =>
      rw [Value.references] at hdelivers
      rw [Value.substitute]
      exact substituteText_ends s hdelivers hknown
  | list items =>
      apply (substituteItems_ends items hdelivers hknown).map
      intro values later hvalues
      exact ⟨hvalues.1, values, rfl, hvalues.2⟩
  | object entries =>
      apply (substituteEntries_ends entries hdelivers hknown).map
      intro values later hvalues
      exact ⟨hvalues.1, values, rfl, hvalues.2⟩
  | _ => exact Ends.of_return ⟨.refl hknown, rfl⟩
termination_by structural value

theorem substituteItems_ends (items : List Value)
    (hdelivers : Delivers tokens open_ bad valueOf (Value.itemReferences items))
    {known : Known} (hknown : Settled tokens known) :
    Ends (Value.substituteItems valueOf items) known
      (fun values later => Grows tokens open_ known later ∧
        Value.ItemsReplaced (Entries.get? later) items values) bad := by
  cases items with
  | nil => exact Ends.of_return ⟨.refl hknown, rfl⟩
  | cons item rest =>
      have hitem := hdelivers.subset (List.subset_append_left _ (Value.itemReferences rest))
      have hrest := hdelivers.subset (List.subset_append_right item.references _)
      apply (substitute_ends item hitem hknown).bind
      intro first later hfirst
      apply (substituteItems_ends rest hrest hfirst.1.settled).bind
      intro others last hothers
      have hkept := Value.Replaced.mono hothers.1.get?_eq item hfirst.2
      exact Ends.of_return ⟨hfirst.1.trans hothers.1, first, others, rfl, hkept, hothers.2⟩
termination_by structural items

theorem substituteEntries_ends (entries : List (String × Value))
    (hdelivers : Delivers tokens open_ bad valueOf (Value.entryReferences entries))
    {known : Known} (hknown : Settled tokens known) :
    Ends (Value.substituteEntries valueOf entries) known
      (fun values later => Grows tokens open_ known later ∧
        Value.EntriesReplaced (Entries.get? later) entries values) bad := by
  cases entries with
  | nil => exact Ends.of_return ⟨.refl hknown, rfl⟩
  | cons entry rest =>
      have hentry := hdelivers.subset (List.subset_append_left _ (Value.entryReferences rest))
      have hrest := hdelivers.subset (List.subset_append_right entry.2.references _)
      apply (substitute_ends entry.2 hentry hknown).bind
      intro first later hfirst
      apply (substituteEntries_ends rest hrest hfirst.1.settled).bind
      intro others last hothers
      have hkept := Value.Replaced.mono hothers.1.get?_eq entry.2 hfirst.2
      exact Ends.of_return ⟨hfirst.1.trans hothers.1, first, others, rfl, hkept, hothers.2⟩
termination_by structural entries

end

end Substitution

/-! ## One token -/

/-- A new value is settled when all that it was made from is known, and the token that
was open for it is so no longer. -/
theorem Grows.insert {known later : Known} {open_ : List String} {token : Authored}
    {value : Value} (hmem : token ∈ tokens) (hnew : Entries.get? known token.path = none)
    (hclosed : token.path.dotted ∉ open_)
    (hgrows : Grows tokens (open_ ++ [token.path.dotted]) known later)
    (hvalue : token.value.Replaced (Entries.get? later) value) :
    Grows tokens open_ known (Entries.insert later token.path value) ∧
      Entries.get? (Entries.insert later token.path value) token.path = some value := by
  have hlater : Entries.get? later token.path = none := by
    rw [Entries.get?_eq_none_iff]
    intro hfound
    obtain ⟨entry, hentry, hpath⟩ := List.mem_map.1 hfound
    rcases hgrows.apart entry hentry with hknown | happart
    · exact Entries.get?_eq_none_iff.1 hnew (List.mem_map.2 ⟨entry, hknown, hpath⟩)
    · simp [hpath] at happart
  refine ⟨?_, by simp [Entries.get?_insert]⟩
  rw [Entries.insert_of_get?_eq_none hlater]
  refine ⟨hgrows.extends_known.trans (List.prefix_append later _), ?_, ?_⟩
  · exact .snoc hgrows.settled hmem hlater hvalue
  · intro entry hentry
    rcases List.mem_append.1 hentry with hold | hlast
    · rcases hgrows.apart entry hold with hknown | happart
      · exact .inl hknown
      · exact .inr fun hopen => happart (List.mem_append_left _ hopen)
    · rw [List.mem_singleton.1 hlast]
      exact .inr hclosed

/-- Resolving one token of the list gives its value, or shows a fault of the list. -/
theorem valueOf_ends {fuel : Nat} {open_ : List TokenPath} {token : Authored} {known : Known}
    (hopen : IsOpen tokens open_) (hmem : token ∈ tokens)
    (hlink : ∀ last ∈ open_.getLast?, RefersTo tokens last token.path)
    (hfuel : tokens.length < open_.length + fuel) (hknown : Settled tokens known) :
    Ends (valueOf tokens fuel (open_.map TokenPath.dotted) token) known
      (fun value later => Grows tokens (open_.map TokenPath.dotted) known later ∧
        Entries.get? later token.path = some value) (Fault tokens) := by
  induction fuel generalizing open_ token known with
  | zero => exact absurd hopen.length_le (by omega)
  | succ fuel ih =>
      rw [valueOf]
      apply Ends.of_get
      cases hfound : Entries.get? known token.path with
      | some value => exact Ends.of_return ⟨.refl hknown, hfound⟩
      | none =>
          have hsnoc : open_.map TokenPath.dotted ++ [token.path.dotted] =
              (open_ ++ [token.path]).map TokenPath.dotted := by simp
          by_cases hcycle : token.path.dotted ∈ open_.map TokenPath.dotted
          · simp only [hcycle, if_true, hsnoc]
            apply Ends.of_throw_bind
            exact .cycle (hopen.chain.append (by simp) (by simpa using hlink)) hcycle
          · simp only [hcycle, if_false, hsnoc]
            have hopened := hopen.snoc hmem hlink hcycle
            apply (substitute_ends token.value ?delivers hknown).bind
            · intro value later hvalue
              apply Ends.of_modify
              exact Grows.insert hmem hfound hcycle (hsnoc ▸ hvalue.1) hvalue.2
            case delivers =>
              intro reference hreference later hlater
              cases hfind : find? tokens (Reference.path reference) with
              | none =>
                  simp only [hfind]
                  exact Ends.of_throw (.missing hmem hreference (ne_of_find?_eq_none hfind))
              | some target =>
                  obtain ⟨htarget, hpath⟩ := mem_of_find?_eq_some hfind
                  simp only [hfind]
                  rw [← hpath]
                  apply ih hopened htarget _ (by simp; omega) hlater
                  rw [hpath]
                  simpa using ⟨token, hmem, rfl, reference, hreference, rfl⟩

end DesignTokens.Resolution
