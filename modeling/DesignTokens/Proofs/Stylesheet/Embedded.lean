import DesignTokens.Proofs.Files.Loaded
import DesignTokens.Proofs.Resolution.Uniqueness
import DesignTokens.Proofs.Traced
import DesignTokens.Stylesheet.Rendering

/-!
# References inside longer text

A reference inside longer text is replaced by one writer when a dictionary is loaded, and
the token that it names is written by another one into a stylesheet. The two agree on
texts and whole numbers, on doubles that are not whole, and on dimensions with such an
amount. They differ on null, on flags and on whole doubles, alone or as an amount: a width
of `16.0px` is written `16px`, and `16.0px` inside longer text.
-/

namespace DesignTokens.Decimal

/-- A character that no whole number is written with and every double is. -/
def IsMark (c : Char) : Prop :=
  c = '.' ∨ c = 'e'

theorem Scaled.exists_isMark_write (d : Scaled) : ∃ c ∈ d.write.toList, IsMark c := by
  unfold Scaled.write
  dsimp only
  split
  · exact ⟨'.', by decide, .inl rfl⟩
  · split
    · exact ⟨'e', by simp [exponentText], .inr rfl⟩
    · split
      · exact ⟨'.', by simp, .inl rfl⟩
      · exact ⟨'.', by simp, .inl rfl⟩

theorem not_isMark_of_mem_natural {n : Nat} {c : Char} (hmem : c ∈ (toString n).toList) :
    ¬ IsMark c := by
  have hdigits : c ∈ Nat.toDigits 10 n := by simpa using hmem
  have hdigit : c.isDigit := Nat.isDigit_of_mem_toDigits (by decide) (by decide) hdigits
  rintro (rfl | rfl) <;> exact absurd hdigit (by decide)

theorem not_isMark_of_mem_whole {n : Int} {c : Char} (hmem : c ∈ (toString n).toList) :
    ¬ IsMark c := by
  cases n with
  | ofNat m => exact not_isMark_of_mem_natural (n := m) hmem
  | negSucc m =>
      have hsplit : c = '-' ∨ c ∈ (toString (m + 1)).toList := by
        simpa [toString, Int.repr] using hmem
      rcases hsplit with rfl | hdigits
      · rintro (hpoint | hletter)
        · exact absurd hpoint (by decide)
        · exact absurd hletter (by decide)
      · exact not_isMark_of_mem_natural hdigits

/-- No double is written as a whole number. -/
theorem writeFloat_ne_toString {x : Float} {d : Dyadic} (hvalue : Dyadic.ofFloat? x = some d)
    (words : SpecialWords) (n : Int) : writeFloat words x ≠ toString n := by
  intro hsame
  obtain ⟨c, hmem, hmark⟩ := (shortest d.significand d.exponent).exists_isMark_write
  have hwritten : c ∈ (writeFloat words x).toList := by
    rw [writeFloat, hvalue]
    simp [hmem]
  rw [hsame] at hwritten
  exact not_isMark_of_mem_whole hwritten hmark

end DesignTokens.Decimal

namespace DesignTokens.Value

/-! ## Two ways to write a value -/

/-- Amounts that a stylesheet and longer text spell alike. -/
def isPlainAmount : Value → Bool
  | .bool _ => false
  | .float x => !Decimal.isWhole x
  | _ => true

/-- Scalars and dimensions. -/
def isSimple : Value → Bool
  | .list _ => false
  | .object entries => (Value.object entries).isDimension
  | _ => true

/-- Scalars and dimensions that a stylesheet and longer text spell alike. -/
def isPlain : Value → Bool
  | .null | .list _ => false
  | .object entries =>
    (Value.object entries).isDimension && (Entries.get? entries "value").all isPlainAmount
  | v => v.isPlainAmount

theorem isSimple_of_isPlain {v : Value} (hplain : v.isPlain) : v.isSimple := by
  cases v with
  | object entries => exact (Bool.and_eq_true_iff.1 hplain).1
  | list items => cases hplain
  | _ => rfl

theorem numberText_eq_inline_iff {v : Value} : v.numberText = v.inline ↔ v.isPlainAmount := by
  cases v with
  | bool flag =>
      have hdifferent : (Value.bool flag).numberText ≠ (Value.bool flag).inline := by
        cases flag
        · decide
        · decide
      simp only [hdifferent, isPlainAmount, Bool.false_eq_true]
  | float x =>
      have hinline : (Value.float x).inline = Decimal.writeFloat .inline x := rfl
      rw [numberText, hinline, isPlainAmount, Decimal.isWhole]
      cases hvalue : Decimal.Dyadic.ofFloat? x with
      | none => simp
      | some d =>
          have hdifferent := (Decimal.writeFloat_ne_toString hvalue .inline d.truncate).symm
          cases hwhole : d.isWhole with
          | true => simp only [hwhole, if_true, hdifferent, Option.any_some, Bool.not_true,
              Bool.false_eq_true]
          | false => simp [hwhole]
  | _ => exact ⟨fun _ => rfl, fun _ => rfl⟩

theorem exists_members_of_isDimension {entries : Object}
    (hdimension : (Value.object entries).isDimension) : ∃ amount unit,
      Entries.get? entries "value" = some amount ∧ Entries.get? entries "unit" = some unit := by
  simp only [isDimension, hasMember, member?, object?, Option.bind_some, Bool.and_eq_true,
    Option.isSome_iff_exists] at hdimension
  obtain ⟨⟨⟨amount, hamount⟩, unit, hunit⟩, -⟩ := hdimension
  exact ⟨amount, unit, hamount, hunit⟩

/-- A dimension has no member beside its amount and its unit. -/
theorem isDimension_eq_false_of_hasMember {entries : Object} {key : String}
    (hmember : (Value.object entries).hasMember key = true)
    (hother : key ≠ "value" ∧ key ≠ "unit") : (Value.object entries).isDimension = false := by
  rw [Bool.eq_false_iff]
  intro hdimension
  rw [isDimension, Bool.and_eq_true] at hdimension
  have hkeys := hdimension.2
  simp only [object?, Option.getD_some, List.all_eq_true, Bool.or_eq_true, beq_iff_eq] at hkeys
  obtain ⟨value, hvalue⟩ := Option.isSome_iff_exists.1 hmember
  have hentry : (key, value) ∈ entries := Entries.mem_of_get?_eq_some hvalue
  rcases hkeys _ hentry with hamount | hunit
  · exact hother.1 hamount
  · exact hother.2 hunit

theorem not_isColor_of_isDimension {entries : Object}
    (hdimension : (Value.object entries).isDimension) : (Value.object entries).isColor = false := by
  rw [Bool.eq_false_iff]
  intro hcolor
  have hspace := (Bool.and_eq_true_iff.1 hcolor).1
  rw [isDimension_eq_false_of_hasMember hspace (by decide)] at hdimension
  cases hdimension

theorem embedded_of_isDimension {entries : Object} {amount unit : Value}
    (hdimension : (Value.object entries).isDimension)
    (hamount : Entries.get? entries "value" = some amount)
    (hunit : Entries.get? entries "unit" = some unit) :
    (Value.object entries).embedded = amount.inline ++ unit.inline := by
  have hvalue : (Value.object entries).member? "value" = some amount := hamount
  have hmember : (Value.object entries).member? "unit" = some unit := hunit
  rw [embedded, hvalue, hmember]
  exact if_pos hdimension

end DesignTokens.Value

namespace DesignTokens.Stylesheet

theorem literalText_of_isDimension {entries : Object} {amount unit : Value}
    (hdimension : (Value.object entries).isDimension)
    (hamount : Entries.get? entries "value" = some amount)
    (hunit : Entries.get? entries "unit" = some unit) (tokenType : Option String) :
    (literalText tokenType (.object entries)).result = .ok (amount.numberText ++ unit.inline) := by
  rw [literalText, Value.not_isColor_of_isDimension hdimension, if_neg (by decide),
    if_pos hdimension, Traced.result_ofExcept, dimensionText]
  simp only [hamount, hunit]

/-- A scalar or a dimension is written in a stylesheet as inside longer text exactly if it
is a plain one. -/
theorem literalText_eq_embedded_iff {v : Value} (hsimple : v.isSimple)
    (tokenType : Option String) :
    (literalText tokenType v).result = .ok v.embedded ↔ v.isPlain := by
  cases v with
  | null =>
      have hdifferent : "" ≠ Value.null.embedded := by decide
      rw [literalText, Traced.result_pure, Except.ok.injEq]
      simp only [hdifferent, Value.isPlain, Bool.false_eq_true]
  | text s =>
      rw [literalText, Traced.result_pure]
      exact ⟨fun _ => rfl, fun _ => rfl⟩
  | list items => cases hsimple
  | object entries =>
      obtain ⟨amount, unit, hamount, hunit⟩ := Value.exists_members_of_isDimension hsimple
      have hdimension : (Value.object entries).isDimension := hsimple
      rw [literalText_of_isDimension hdimension hamount hunit,
        Value.embedded_of_isDimension hdimension hamount hunit, Value.isPlain, hdimension, hamount,
        Except.ok.injEq, String.append_left_inj, Value.numberText_eq_inline_iff]
      simp
  | bool flag =>
      rw [literalText, Traced.result_pure, Except.ok.injEq]
      exact Value.numberText_eq_inline_iff
  | int n =>
      rw [literalText, Traced.result_pure, Except.ok.injEq]
      exact Value.numberText_eq_inline_iff
  | float x =>
      rw [literalText, Traced.result_pure, Except.ok.injEq]
      exact Value.numberText_eq_inline_iff

end DesignTokens.Stylesheet

namespace DesignTokens.Reference.Expanded

variable {lookup other : TokenPath → Option Value} {chars out : List Char}

/-- Only the texts of the values that the references name are put into a text. -/
theorem congr_of_mem (hexpanded : Expanded lookup chars out)
    (hsame : ∀ reference ∈ (Piece.scan none chars).filterMap Piece.target?, ∀ value,
      lookup (path reference) = some value →
        ∃ found, other (path reference) = some found ∧ found.embedded = value.embedded) :
    Expanded other chars out := by
  induction hexpanded with
  | nil => exact .nil
  | reference hinner hvalue _ ih =>
      rw [Piece.scan_begins hinner] at hsame
      obtain ⟨found, hfound, htext⟩ := hsame _ List.mem_cons_self _ hvalue
      rw [← htext]
      exact .reference hinner hfound (ih fun later hmem => hsame later (List.mem_cons_of_mem _ hmem))
  | kept hbegins _ ih =>
      rw [Piece.targets_scan_of_not_begins hbegins] at hsame
      exact .kept hbegins (ih hsame)

/-- In a text with one reference only what stands for the reference depends on its value. -/
theorem exists_split {reference : String} (hexpanded : Expanded lookup chars out)
    (hone : (Piece.scan none chars).filterMap Piece.target? = [reference]) :
    ∃ before after value, lookup (path reference) = some value ∧
      out = before ++ (value.embedded.toList ++ after) ∧
        ∀ (other : TokenPath → Option Value) (found : Value), other (path reference) = some found →
          Expanded other chars (before ++ (found.embedded.toList ++ after)) := by
  induction hexpanded with
  | nil => cases hone
  | @reference inner rest out value hinner hvalue hrest _ =>
      rw [Piece.scan_begins hinner] at hone
      obtain ⟨rfl, hnone⟩ : target inner = reference ∧
          (Piece.scan none rest).filterMap Piece.target? = [] := List.cons.inj hone
      refine ⟨[], out, value, hvalue, rfl, fun other found hfound => .reference hinner hfound ?_⟩
      exact hrest.congr_of_mem (by simp [hnone])
  | @kept c rest out hbegins _ ih =>
      rw [Piece.targets_scan_of_not_begins hbegins] at hone
      obtain ⟨before, after, value, hvalue, rfl, hother⟩ := ih hone
      exact ⟨c :: before, after, value, hvalue, rfl,
        fun other found hfound => .kept hbegins (hother other found hfound)⟩

end DesignTokens.Reference.Expanded

namespace DesignTokens.Stylesheet.RenderOptions

open Reference (Expanded)

variable {dictionary : Dictionary} {options : RenderOptions}

/-- The text that the token at a path is written with, as a value. -/
def writtenAt? (options : RenderOptions) (dictionary : Dictionary) (path : TokenPath) :
    Option Value :=
  (dictionary.get? path).bind fun token =>
    (options.value token dictionary).result.toOption.map Value.text

theorem value_of_policy_off (hoff : options.policy = .always false) (token : Token) :
    (options.value token dictionary).result = (literalText token.type token.value).result := by
  have hkeeps : options.keeps token dictionary = .ok false := by
    rw [keeps, hoff]
    cases token.original.usesReferences <;> rfl
  rw [value, hkeeps]
  rfl

theorem value_of_policy_on (hon : options.policy = .always true) (token : Token) :
    options.value token dictionary =
      options.kept dictionary token token.original token.value := by
  rw [value, keeps, hon]
  unfold kept
  cases token.original.usesReferences <;> rfl

theorem get?_of_mem {token : Token} (htoken : token ∈ dictionary.tokens) :
    dictionary.get? token.path = some token := by
  have hvalue := Resolution.valueAt?_of_mem dictionary.nodup_paths htoken
  obtain ⟨found, hfound, -⟩ := Option.map_eq_some_iff.1 hvalue
  have hpath : found.path = token.path := by simpa using List.find?_some hfound
  have hsame := List.inj_on_of_nodup_map dictionary.nodup_paths
    (List.mem_of_find?_eq_some hfound) htoken hpath
  rwa [hsame] at hfound

/-- A token that is a scalar or a dimension stands in its own stylesheet text as inside
longer text exactly if its value is a plain one. -/
theorem writtenAt?_eq_embedded_iff (hoff : options.policy = .always false) {token : Token}
    (htoken : token ∈ dictionary.tokens) (hsimple : token.value.isSimple) :
    (∃ found, options.writtenAt? dictionary token.path = some found ∧
      found.embedded = token.value.embedded) ↔ token.value.isPlain := by
  rw [← literalText_eq_embedded_iff hsimple token.type, ← value_of_policy_off hoff token,
    writtenAt?, get?_of_mem htoken, Option.bind_some]
  cases (options.value token dictionary).result with
  | error error => simp [Except.toOption]
  | ok text =>
      have htext : (Value.text text).embedded = text := rfl
      simp [Except.toOption, htext]

/-- Without kept references a text with references inside is written as authored, each
reference replaced by the text that its value has inside longer text. That is the text of
the token it names if all those values are plain ones; and if there is one reference, to a
scalar or a dimension, it is so only then. -/
theorem value_of_not_isAlias (hloaded : Loading.IsLoaded dictionary) {token : Token}
    (htoken : token ∈ dictionary.tokens) {s : String} (htext : token.original = .text s)
    (hinside : ∀ reference, ¬ Reference.IsAlias s reference)
    (hoff : options.policy = .always false) :
    ∃ text, (options.value token dictionary).result = .ok text ∧
      Expanded (Resolution.valueAt? dictionary.tokens) s.toList text.toList ∧
      ((∀ reference ∈ Reference.targets s, ∀ target ∈ dictionary.tokens,
        target.path = Reference.path reference → target.value.isPlain) →
          Expanded (options.writtenAt? dictionary) s.toList text.toList) ∧
      ∀ reference, Reference.targets s = [reference] → ∀ target ∈ dictionary.tokens,
        target.path = Reference.path reference → target.value.isSimple →
          (Expanded (options.writtenAt? dictionary) s.toList text.toList ↔
            target.value.isPlain) := by
  have hreplaced := (hloaded.replaced htoken).2
  rw [htext] at hreplaced
  obtain ⟨reference, halias, -⟩ | ⟨-, out, hout, hvalue⟩ := hreplaced
  · exact absurd halias (hinside reference)
  refine ⟨String.ofList out, ?_, by simpa using hout, ?_, ?_⟩
  · rw [value_of_policy_off hoff, hvalue, literalText]
    rfl
  · intro hplain
    rw [String.toList_ofList]
    apply hout.congr_of_mem
    intro reference hmem value hvalue
    obtain ⟨target, hfind, rfl⟩ := Option.map_eq_some_iff.1 hvalue
    have htarget := List.mem_of_find?_eq_some hfind
    have hpath : target.path = Reference.path reference := by simpa using List.find?_some hfind
    have htargetPlain := hplain reference hmem target htarget hpath
    rw [← hpath]
    exact (writtenAt?_eq_embedded_iff hoff htarget (Value.isSimple_of_isPlain htargetPlain)).2
      htargetPlain
  · intro reference hone target htarget hpath hsimple
    obtain ⟨before, after, found, hfound, rfl, hother⟩ := hout.exists_split hone
    rw [← hpath, Resolution.valueAt?_of_mem dictionary.nodup_paths htarget] at hfound
    obtain rfl := Option.some.inj hfound
    rw [← writtenAt?_eq_embedded_iff hoff htarget hsimple, String.toList_ofList, hpath]
    constructor
    · intro hwritten
      have hmem : reference ∈ Reference.targets s := by simp [hone]
      obtain ⟨text, hread⟩ := hwritten.exists_of_mem hmem
      have hsame := (hother _ text hread).unique hwritten
      refine ⟨text, hread, ?_⟩
      rw [← String.toList_inj]
      simpa using hsame
    · rintro ⟨text, hread, hembedded⟩
      rw [← hembedded]
      exact hother _ text hread

/-- Values are written without references. -/
def literalOptions : RenderOptions where
  policy := .always false

/-- A width and a flag, and a text around each. -/
def noted : Object :=
  [("gap", .object [("$value", .object [("value", .int 4), ("unit", .text "px")])]),
    ("flag", .object [("$value", .bool true)]),
    ("padding", .object [("$value", .text "0 \x7bgap\x7d")]),
    ("note", .object [("$value", .text "on: \x7bflag\x7d")])]

def gapValue : Value := .object [("value", .int 4), ("unit", .text "px")]

def paddingToken : Token :=
  ⟨["padding"], "padding", none, .text "0 4px", .text "0 \x7bgap\x7d", none, none, [], none⟩

def noteToken : Token :=
  ⟨["note"], "note", none, .text "on: True", .text "on: \x7bflag\x7d", none, none, [], none⟩

def notedTokens : Dictionary where
  tokens := [⟨["gap"], "gap", none, gapValue, gapValue, none, none, [], none⟩,
    ⟨["flag"], "flag", none, .bool true, .bool true, none, none, [], none⟩, paddingToken, noteToken]
  nodup_paths := by decide

def notedAuthored : List Authored :=
  [⟨["gap"], .null, gapValue, [], .null, none⟩, ⟨["flag"], .null, .bool true, [], .null, none⟩,
    ⟨["padding"], .null, paddingToken.original, [], .null, none⟩,
    ⟨["note"], .null, noteToken.original, [], .null, none⟩]

theorem isLoaded_noted : Loading.IsLoaded notedTokens := by
  have hunique : (Value.object noted).UniqueKeys := by
    simp [noted, Value.UniqueKeys, Value.EntriesUnique, Entries.keys]
  have hauthored : Loading.tokensOf (Tree.Keys.of true) noted = .ok notedAuthored := rfl
  have hresolved : Resolution.resolve notedAuthored none = .ok notedTokens.tokens := rfl
  exact .of_resolve hunique hauthored hresolved

theorem value_of_not_isAlias_padding : ∃ text,
    (literalOptions.value paddingToken notedTokens).result = .ok text ∧
      Expanded (Resolution.valueAt? notedTokens.tokens) "0 \x7bgap\x7d".toList text.toList ∧
        Expanded (literalOptions.writtenAt? notedTokens) "0 \x7bgap\x7d".toList text.toList := by
  have hmem : paddingToken ∈ notedTokens.tokens := by simp [notedTokens]
  have hinside : ∀ reference, ¬ Reference.IsAlias "0 \x7bgap\x7d" reference :=
    Reference.alias?_eq_none_iff.1 rfl
  have hoff : literalOptions.policy = .always false := rfl
  obtain ⟨text, htext, hexpanded, hplain, -⟩ :=
    value_of_not_isAlias isLoaded_noted hmem rfl hinside hoff
  refine ⟨text, htext, hexpanded, hplain ?_⟩
  have htargets : Reference.targets "0 \x7bgap\x7d" = ["gap"] := rfl
  intro reference hreference target htarget hpath
  rw [htargets, List.mem_singleton] at hreference
  have hgap : Reference.path "gap" = ["gap"] := by cbv
  rw [hreference, hgap] at hpath
  simp only [notedTokens, List.mem_cons, List.not_mem_nil, or_false] at htarget
  rcases htarget with rfl | rfl | rfl | rfl
  · rfl
  · exact absurd hpath (by decide)
  · exact absurd hpath (by decide)
  · exact absurd hpath (by decide)

/-- A flag is written `true` in a stylesheet and `True` inside longer text. -/
theorem not_expanded_note :
    ¬ ∀ (dictionary : Dictionary) (token : Token) (s : String) (options : RenderOptions),
      Loading.IsLoaded dictionary → token ∈ dictionary.tokens → token.original = .text s →
        (∀ reference, ¬ Reference.IsAlias s reference) → options.policy = .always false →
          ∃ text, (options.value token dictionary).result = .ok text ∧
            Expanded (options.writtenAt? dictionary) s.toList text.toList := by
  intro hall
  have hmem : noteToken ∈ notedTokens.tokens := by simp [notedTokens]
  have hinside : ∀ reference, ¬ Reference.IsAlias "on: \x7bflag\x7d" reference :=
    Reference.alias?_eq_none_iff.1 rfl
  obtain ⟨text, htext, hexpanded⟩ :=
    hall notedTokens noteToken _ literalOptions isLoaded_noted hmem rfl hinside rfl
  have hwritten : (literalOptions.value noteToken notedTokens).result = .ok "on: True" := rfl
  obtain rfl := Except.ok.inj (hwritten.symm.trans htext)
  have hone : Reference.targets "on: \x7bflag\x7d" = ["flag"] := rfl
  obtain ⟨before, after, found, hfound, hsplit, -⟩ := hexpanded.exists_split hone
  have hflag : literalOptions.writtenAt? notedTokens (Reference.path "flag") =
      some (.text "true") := rfl
  obtain rfl := Option.some.inj (hflag.symm.trans hfound)
  have hletter : 't' ∈ "on: True".toList := by
    rw [hsplit]
    have hfirst : 't' ∈ (Value.text "true").embedded.toList := by decide
    simp [hfirst]
  exact absurd hletter (by decide)

end DesignTokens.Stylesheet.RenderOptions
