import DesignTokens.Proofs.Traced
import DesignTokens.Stylesheet.Literal

/-!
# Colors that cannot be written

Reading a color asks for a list of channels, of any length, in which any text may stand. Writing
it asks for more: the forms with a fixed number of channels need three of them, and three
channels up to 255 have to be numbers whose 255-fold is finite. A color that is read and not
written so is no longer passed through. Nothing else makes literal text fail.
-/

namespace DesignTokens

namespace Stylesheet

open Failing

/-- The error concerns the channels of a color. -/
inductive IsChannelFault : Error → Prop
  | count (found : Nat) : IsChannelFault (.shape (.channelCount found))
  | notNumber (text : String) : IsChannelFault (.shape (.channelNotNumber text))
  | tooLarge : IsChannelFault (.shape .channelTooLarge)

/-! ## Single channels -/

/-- The number that a channel stands for. -/
def Channel.amount? : Channel → Option Float
  | .number x => some x
  | .word s => Decimal.channelNumber? s

/-- The channel can be written as a whole number up to 255: it is no number at all by the word
for that, or a number whose 255-fold is finite. -/
def Channel.IsByte (channel : Channel) : Prop :=
  channel = .word "none" ∨
    ∃ x, channel.amount? = some x ∧ (Decimal.Dyadic.ofFloat? (x * 255.0)).isSome

theorem decided_whole (x : Float) :
    Decided ((Decimal.Dyadic.ofFloat? (x * 255.0)).isSome) IsChannelFault
      (Channel.byteText.whole x) := by
  rw [Channel.byteText.whole]
  cases hscaled : Decimal.Dyadic.ofFloat? (x * 255.0) with
  | some d => exact (Decided.of_ok _).congr (by simp)
  | none =>
      refine ⟨nofun, fun _ => ?_⟩
      dsimp only
      split
      · exact ⟨_, .notNumber _, rfl⟩
      · exact ⟨_, .tooLarge, rfl⟩

theorem decided_byteText (channel : Channel) :
    Decided channel.IsByte IsChannelFault channel.byteText := by
  unfold Channel.byteText
  split
  · exact (Decided.of_ok _).congr (by simp [Channel.IsByte])
  · next x => exact (decided_whole x).congr (by simp [Channel.IsByte, Channel.amount?])
  · next s hnone =>
    have hbyte : Channel.IsByte (.word s) ↔ ∃ x, Decimal.channelNumber? s = some x ∧
        (Decimal.Dyadic.ofFloat? (x * 255.0)).isSome := by
      simpa [Channel.IsByte, Channel.amount?] using fun hword => absurd hword hnone
    split
    · next x hx => exact (decided_whole x).congr (by simp [hbyte, hx])
    · next hx => exact ⟨by simp [hbyte, hx], fun _ => ⟨_, .notNumber s, rfl⟩⟩

/-! ## Colors in the form of their space -/

/-- The color has what the form asks of its channels. -/
def Color.IsWritable (color : Color) : ColorForm → Prop
  | .rgb => 3 ≤ color.channels.length ∧ ∀ channel ∈ color.channels.take 3, channel.IsByte
  | .general _ => 3 ≤ color.channels.length
  | .named _ _ => True

theorem decided_threeChannels (texts : List String) :
    Decided (texts.length = 3) IsChannelFault (threeChannels texts) := by
  rw [threeChannels]
  split
  · next hlength => exact (Decided.of_ok texts).congr (by simp [hlength])
  · next hlength => exact ⟨fun hthree => absurd hthree hlength, fun _ => ⟨_, .count _, rfl⟩⟩

theorem decided_write (form : ColorForm) (color : Color) :
    Decided (color.IsWritable form) IsChannelFault (color.write form) := by
  cases form with
  | rgb =>
      have htexts := Decided.mapM decided_byteText (color.channels.take 3)
      have hwritten : Decided ((∀ channel ∈ color.channels.take 3, channel.IsByte) ∧
          3 ≤ color.channels.length ∧ True) IsChannelFault (color.write .rgb) := by
        apply htexts.bind
        intro texts hrun
        have hlength : texts.length = min 3 color.channels.length := by
          rw [← (mapM_eq_ok.1 hrun).length_eq, List.length_take]
        apply ((decided_threeChannels texts).congr (by omega)).bind
        intro three _
        dsimp only
        split
        · exact .of_ok _
        · exact .of_ok _
      exact hwritten.congr (by simp [Color.IsWritable, and_comm])
  | general space =>
      have hthree := decided_threeChannels ((color.channels.take 3).map Channel.shown)
      rw [List.length_map, List.length_take] at hthree
      apply (hthree.bind fun _ _ => .of_ok _).congr
      rw [and_true, Color.IsWritable]
      omega
  | named function percentAt => exact .of_ok _

/-- The object is read as a color of a known space, which is written in the form. -/
def ReadsAs (entries : Object) (form : ColorForm) (color : Color) : Prop :=
  ∃ space, Entries.get? entries "colorSpace" = some (.text space) ∧
    Entries.get? colorForms space = some form ∧ Color.ofObject entries = .ok color

variable {entries : Object}

theorem colorText_of_readsAs {form : ColorForm} {color : Color}
    (hreads : ReadsAs entries form color) :
    colorText (.object entries) = .ofExcept (color.write form) := by
  obtain ⟨space, hspace, hform, hcolor⟩ := hreads
  simp [colorText, hspace, Value.text?, hform, hcolor]

theorem colorText_of_not_readsAs (hreads : ¬ ∃ form color, ReadsAs entries form color) :
    ∃ notice : Notice, notice.level = .warning ∧
      colorText (.object entries) = ⟨[notice], .ok (structureText (.object entries))⟩ := by
  rw [colorText]
  split
  · exact ⟨.unsupportedColorSpace _, rfl, rfl⟩
  · next form hform =>
    split
    · next color hcolor =>
      obtain ⟨space, hspace, hfound⟩ := Option.bind_eq_some_iff.1 hform
      refine absurd ⟨form, color, space, ?_, hfound, hcolor⟩ hreads
      cases hvalue : Entries.get? entries "colorSpace" with
      | none => simp [hvalue, Value.text?] at hspace
      | some value => cases value <;> simp_all [Value.text?]
    · next reason hreason => exact ⟨.malformedColor _ reason, rfl, rfl⟩

/-- An object that is no color of a known space is reported and passed through. One that is
read as such a color is written in the form of the space if its channels allow it; if they do
not, there is no text and nothing is reported. -/
theorem outcome_of_colorText (entries : Object) :
    ((¬ ∃ form color, ReadsAs entries form color) → ∃ notice : Notice, notice.level = .warning ∧
      colorText (.object entries) = ⟨[notice], .ok (structureText (.object entries))⟩) ∧
    ∀ form color, ReadsAs entries form color →
      (color.IsWritable form → ∃ text, color.write form = .ok text ∧
        colorText (.object entries) = ⟨[], .ok text⟩) ∧
      (¬ color.IsWritable form → ∃ error, IsChannelFault error ∧
        colorText (.object entries) = ⟨[], .error error⟩) := by
  refine ⟨colorText_of_not_readsAs, fun form color hreads => ?_⟩
  rw [colorText_of_readsAs hreads]
  have hwrite := decided_write form color
  constructor
  · intro hwritable
    obtain ⟨text, htext⟩ := hwrite.ok hwritable
    exact ⟨text, htext, by rw [htext, Traced.ofExcept]⟩
  · intro hnot
    obtain ⟨error, herror, hrun⟩ := hwrite.error hnot
    exact ⟨error, herror, by rw [hrun, Traced.ofExcept]⟩

/-- A color of the space with the given number of channels, each of them left open. -/
def openColor (space : String) (count : Nat) : Object :=
  [("colorSpace", .text space), ("components", .list (List.replicate count (.text "none")))]

theorem readsAs_openColor {space : String} {form : ColorForm}
    (hform : Entries.get? colorForms space = some form) (count : Nat) :
    ReadsAs (openColor space count) form ⟨List.replicate count (.word "none"), 1.0⟩ := by
  refine ⟨space, rfl, hform, ?_⟩
  have hchannels : (List.replicate count (Value.text "none")).mapM Channel.ofValue =
      .ok (List.replicate count (.word "none")) := by
    rw [mapM_eq_ok]
    induction count with
    | zero => exact .nil
    | succ count ih => exact .cons rfl ih
  have hcomponents : Entries.get? (openColor space count) "components" =
      some (.list (List.replicate count (.text "none"))) := rfl
  have halpha : Entries.get? (openColor space count) "alpha" = none := rfl
  rw [Color.ofObject, hcomponents, halpha]
  dsimp only
  rw [hchannels]
  rfl

theorem outcome_of_colorText_openColor :
    (∃ text, colorText (.object (openColor "srgb" 3)) = ⟨[], .ok text⟩) ∧
      (∃ error, IsChannelFault error ∧
        colorText (.object (openColor "srgb" 1)) = ⟨[], .error error⟩) ∧
      ∃ notice : Notice, notice.level = .warning ∧ colorText (.object (openColor "cmyk" 4)) =
        ⟨[notice], .ok (structureText (.object (openColor "cmyk" 4)))⟩ := by
  have hthree := ((outcome_of_colorText (openColor "srgb" 3)).2 _ _ (readsAs_openColor rfl 3)).1
  have hone := ((outcome_of_colorText (openColor "srgb" 1)).2 _ _ (readsAs_openColor rfl 1)).2
  refine ⟨?_, hone fun hwritable => absurd hwritable.1 (by decide), ?_⟩
  · obtain ⟨text, -, htext⟩ := hthree ⟨by decide, by simp [List.replicate, Channel.IsByte]⟩
    exact ⟨text, htext⟩
  · apply (outcome_of_colorText (openColor "cmyk" 4)).1
    rintro ⟨form, color, space, hspace, hform, -⟩
    cases hspace
    cases hform

/-- A color with a single channel has no text. -/
theorem not_colorText_of_oneChannel : ¬ ∀ entries : Object, ∃ notices text,
    colorText (.object entries) = ⟨notices, .ok text⟩ := by
  intro hall
  obtain ⟨notices, text, htext⟩ := hall (openColor "srgb" 1)
  have hfails : (colorText (.object (openColor "srgb" 1))).result =
      .error (.shape (.channelCount 1)) := rfl
  rw [htext] at hfails
  cases hfails

/-! ## Literal text -/

theorem failsOnly_channels_colorText (entries : Object) :
    FailsOnly IsChannelFault (colorText (.object entries)).result := by
  by_cases hreads : ∃ form color, ReadsAs entries form color
  · obtain ⟨form, color, hreads⟩ := hreads
    rw [colorText_of_readsAs hreads]
    exact (decided_write form color).failsOnly
  · obtain ⟨notice, -, htext⟩ := colorText_of_not_readsAs hreads
    rw [htext]
    exact .of_ok _

theorem exists_dimensionText_eq_ok {entries : Object}
    (hdimension : (Value.object entries).isDimension = true) :
    ∃ text, dimensionText (.object entries) = .ok text := by
  rw [Value.isDimension, Bool.and_eq_true, Bool.and_eq_true] at hdimension
  obtain ⟨⟨hamount, hunit⟩, -⟩ := hdimension
  obtain ⟨amount, hamount⟩ := Option.isSome_iff_exists.1 hamount
  obtain ⟨unit, hunit⟩ := Option.isSome_iff_exists.1 hunit
  have hvalue : Entries.get? entries "value" = some amount := hamount
  have hname : Entries.get? entries "unit" = some unit := hunit
  exact ⟨amount.numberText ++ unit.inline, by simp [dimensionText, hvalue, hname]⟩

mutual

/-- Only the channels of a color can leave a value without a literal text. -/
theorem failsOnly_channels_literalText (type : Option String) (value : Value) :
    FailsOnly IsChannelFault (literalText type value).result := by
  cases value with
  | list items =>
      rw [literalText]
      split
      · exact .of_ok _
      · apply Traced.failsOnly_bind (failsOnly_channels_literalItems type items)
        exact fun _ _ => .of_ok _
  | object entries =>
      rw [literalText]
      split
      · exact failsOnly_channels_colorText entries
      · split
        · next hdimension =>
          obtain ⟨text, htext⟩ := exists_dimensionText_eq_ok hdimension
          rw [htext]
          exact .of_ok text
        · split
          · apply Traced.failsOnly_bind
            · exact Traced.failsOnly_filterMapM fun key _ =>
                failsOnly_channels_literalMember key entries
            · exact fun _ _ => .of_ok _
          · exact .of_ok _
  | _ => exact .of_ok _
termination_by structural value

theorem failsOnly_channels_literalItems (type : Option String) (items : List Value) :
    FailsOnly IsChannelFault (literalItems type items).result := by
  cases items with
  | nil => exact .of_ok _
  | cons item rest =>
      rw [literalItems]
      apply Traced.failsOnly_bind (failsOnly_channels_literalText type item)
      intro text _
      apply Traced.failsOnly_bind (failsOnly_channels_literalItems type rest)
      exact fun _ _ => .of_ok _
termination_by structural items

theorem failsOnly_channels_literalMember (key : String) (entries : List (String × Value)) :
    FailsOnly IsChannelFault (literalMember key entries).result := by
  cases entries with
  | nil => exact .of_ok _
  | cons entry rest =>
      rw [literalMember]
      split
      · exact Traced.failsOnly_map (failsOnly_channels_literalText none entry.2) some
      · exact failsOnly_channels_literalMember key rest
termination_by structural entries

end

end Stylesheet

end DesignTokens
