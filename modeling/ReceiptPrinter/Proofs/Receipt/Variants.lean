import ReceiptPrinter.Proofs.Receipt.Numbers

/-! # Variants — words of the vocabulary and what they choose

    Some attributes hold a word that names a variant of a command.  The compiler
    falls back on a default for a word that names nothing.  On sound tags it
    never does: the command that an element becomes has the variant whose word
    the attribute holds (`Tag.Sound.spelled`). -/

namespace ReceiptPrinter

open Markup (AttributeRule ValueKind)

/-! ## Words -/

def Alignment.word : Alignment → String
  | .left => "left"
  | .center => "center"
  | .right => "right"

def Font.word : Font → String
  | .a => "A"
  | .b => "B"

def Correction.word : Correction → String
  | .l => "L"
  | .m => "M"
  | .q => "Q"
  | .h => "H"

def TextPosition.word : TextPosition → String
  | .none => "none"
  | .above => "above"
  | .below => "below"
  | .both => "both"

def BarcodeKind.word : BarcodeKind → String
  | .upcA => "upca"
  | .upcE => "upce"
  | .ean13 => "ean13"
  | .ean8 => "ean8"
  | .code39 => "code39"
  | .itf => "itf"
  | .codabar => "codabar"
  | .code93 => "code93"
  | .code128 => "code128"

def Cut.word : Cut → String
  | .full => "full"
  | .part => "partial"

def DrawerPin.word : DrawerPin → String
  | .pin2 => "2"
  | .pin5 => "5"

theorem Alignment.ofName?_word (x : Alignment) : ofName? x.word = some x := by
  cases x <;> rfl

theorem Font.ofName?_word (x : Font) : ofName? x.word = some x := by
  cases x <;> rfl

theorem Correction.ofName?_word (x : Correction) : ofName? x.word = some x := by
  cases x <;> rfl

theorem TextPosition.ofName?_word (x : TextPosition) : ofName? x.word = some x := by
  cases x <;> rfl

/-- A symbology that is found by a name is the one of that name. -/
theorem BarcodeKind.word_of_ofName? {name : String} {kind : BarcodeKind}
    (h : ofName? name = some kind) : Text.sameName kind.word name = true := by
  obtain ⟨entry, he, rfl⟩ := Option.map_eq_some_iff.mp h
  have hw : ∀ entry ∈ barcodeKinds, entry.2.word = entry.1 := by decide
  rw [hw entry (List.mem_of_find?_eq_some he)]
  have hn := List.find?_some he
  exact hn

theorem BarcodeKind.ofName?_isSome {name : String}
    (h : (barcodeKinds.map Prod.fst).any (Text.sameName · name) = true) :
    ∃ kind, ofName? name = some kind := by
  rw [List.any_map] at h
  obtain ⟨entry, hm, he⟩ := List.any_eq_true.mp h
  cases hf : barcodeKinds.find? fun entry => Text.sameName entry.1 name with
  | none => exact absurd he (List.find?_eq_none.mp hf entry hm)
  | some found => exact ⟨found.2, by rw [ofName?, hf, Option.map_some]⟩

namespace Tag

/-- The kind of the values of an attribute. -/
def kind? (t : Tag) (attr : String) : Option ValueKind :=
  (t.rule? attr).map AttributeRule.kind

/-- The words in the attributes of an element are those that its commands say.
    What they say of numbers is `Counted`; a command that is not made for lack of
    a number says nothing. -/
structure Spelled (t : Tag) : Prop where
  side : t.name = "align" → ∀ v, t.attributes.get? "value" = some v →
    ∃ side, t.styles? = some (.ok (.align side, .align .left)) ∧ side.word = v
  font : t.name = "font" → ∀ v, t.attributes.get? "name" = some v →
    ∃ font, t.styles? = some (.ok (.font font, .font .a)) ∧ font.word = v
  correction : t.name = "qrcode" → ∀ v, t.attributes.get? "errorLevel" = some v →
    ∀ fill cs, t.symbolCommands fill = .ok cs →
      ∃ data size level, cs = Command.wholeSymbol data size (Correction.code level)
        ∧ level.word = v
  symbology : t.name = "barcode" → ∀ v, t.attributes.get? "type" = some v →
    ∀ fill cs, t.barcodeCommands fill = .ok cs →
      ∃ kind data, cs.getLast? = some (.barcode (.print (BarcodeKind.code kind) data))
        ∧ Text.sameName kind.word v = true
  position : t.name = "barcode" → ∀ v, t.attributes.get? "hri" = some v →
    ∀ fill cs, t.barcodeCommands fill = .ok cs →
      ∀ p, .barcode (.text p) ∈ cs ↔ p.word = v
  function : t.name = "image" → ∀ v, t.attributes.get? "fn" = some v →
    ∀ fill locate step, t.imageStep fill locate = .ok step →
      ∃ path function, step = .image path function
        ∧ (function = 2 ∧ v = "2" ∨ function = 50 ∧ v = "50")
  cut : t.name = "cut" → ∀ v, t.attributes.get? "type" = some v →
    ∀ cs, t.commands? = some (.ok cs) →
      ∃ kind, (cs = [.control (.cut kind)] ∨ ∃ dots, cs = [.control (.feedAndCut kind dots)])
        ∧ kind.word = v
  pin : t.name = "drawer" → ∀ v, t.attributes.get? "pin" = some v →
    ∀ cs, t.commands? = some (.ok cs) →
      ∃ pin onTime offTime, cs = [.control (.drawerPulse (DrawerPin.code pin) onTime offTime)]
        ∧ pin.word = v

variable {t : Tag} {attr v : String} {allowed : List String}

/-- A word of a sound tag is one of those that its rule lists. -/
theorem Sound.mem_of_oneOf (h : t.Sound) (hk : t.kind? attr = some (.oneOf allowed))
    (hv : t.attributes.get? attr = some v) : v ∈ allowed := by
  obtain ⟨a, ha, hk⟩ := Option.map_eq_some_iff.mp hk
  have hb := h.breach?_eq_none ha hv
  rw [AttributeRule.breach?, hk] at hb
  dsimp only at hb
  split at hb
  next hm => exact List.contains_iff_mem.mp hm
  · cases hb

theorem Sound.any_of_oneOfAnyCase (h : t.Sound)
    (hk : t.kind? attr = some (.oneOfAnyCase allowed)) (hv : t.attributes.get? attr = some v) :
    allowed.any (Text.sameName · v) = true := by
  obtain ⟨a, ha, hk⟩ := Option.map_eq_some_iff.mp hk
  have hb := h.breach?_eq_none ha hv
  rw [AttributeRule.breach?, hk] at hb
  dsimp only at hb
  split at hb
  next hm => exact hm
  · cases hb

/-- A word of a sound tag is read as the variant that it names. -/
theorem Sound.variant? {α : Type} {ofName? : String → Option α} {word : α → String}
    (h : t.Sound) (xs : List α) (hw : ∀ x, ofName? (word x) = some x)
    (hk : t.kind? attr = some (.oneOf (xs.map word))) (hv : t.attributes.get? attr = some v) :
    ∃ x, t.variant? attr ofName? = some x ∧ word x = v := by
  obtain ⟨x, -, rfl⟩ := List.mem_map.mp (h.mem_of_oneOf hk hv)
  exact ⟨x, by rw [Tag.variant?, hv, Option.bind_some, hw], rfl⟩

/-! ## Commands -/

private theorem side_spelled {attributes : Markup.Attributes} (h : Sound ⟨"align", attributes⟩)
    (hv : attributes.get? "value" = some v) :
    ∃ side, styles? ⟨"align", attributes⟩ = some (.ok (.align side, .align .left))
      ∧ side.word = v := by
  obtain ⟨side, hs, hw⟩ :=
    h.variant? [.left, .center, .right] Alignment.ofName?_word rfl hv
  refine ⟨side, ?_, hw⟩
  show some (Except.ok (Style.align (Option.getD _ _), _)) = _
  rw [hs, Option.getD_some]

private theorem font_spelled {attributes : Markup.Attributes} (h : Sound ⟨"font", attributes⟩)
    (hv : attributes.get? "name" = some v) :
    ∃ font, styles? ⟨"font", attributes⟩ = some (.ok (.font font, .font .a))
      ∧ font.word = v := by
  obtain ⟨font, hf, hw⟩ := h.variant? [.a, .b] Font.ofName?_word rfl hv
  refine ⟨font, ?_, hw⟩
  show some (Except.ok (Style.font (Option.getD _ _), _)) = _
  rw [hf, Option.getD_some]

private theorem correction_spelled {attributes : Markup.Attributes}
    (h : Sound ⟨"qrcode", attributes⟩) (hv : attributes.get? "errorLevel" = some v)
    {fill : String → String} {cs : List Command}
    (hcs : symbolCommands ⟨"qrcode", attributes⟩ fill = .ok cs) :
    ∃ data size level, cs = Command.wholeSymbol data size (Correction.code level)
      ∧ level.word = v := by
  obtain ⟨level, hl, hw⟩ := h.variant? [.l, .m, .q, .h] Correction.ofName?_word rfl hv
  obtain ⟨data, size, -, hcs⟩ := symbolCommands_eq_ok hcs
  rw [hl] at hcs
  exact ⟨data, size, level, hcs, hw⟩

private theorem symbology_spelled {attributes : Markup.Attributes}
    (h : Sound ⟨"barcode", attributes⟩) (hv : attributes.get? "type" = some v)
    {fill : String → String} {cs : List Command}
    (hcs : barcodeCommands ⟨"barcode", attributes⟩ fill = .ok cs) :
    ∃ kind data, cs.getLast? = some (.barcode (.print (BarcodeKind.code kind) data))
      ∧ Text.sameName kind.word v = true := by
  obtain ⟨kind, hk⟩ := BarcodeKind.ofName?_isSome (h.any_of_oneOfAnyCase rfl hv)
  obtain ⟨height, width, data, -, -, rfl⟩ := barcodeCommands_eq_ok hcs
  refine ⟨kind, data, ?_, BarcodeKind.word_of_ofName? hk⟩
  rw [List.getLast?_concat, Tag.variant?, hv, Option.bind_some, hk, Option.getD_some]

private theorem position_spelled {attributes : Markup.Attributes}
    (h : Sound ⟨"barcode", attributes⟩) (hv : attributes.get? "hri" = some v)
    {fill : String → String} {cs : List Command}
    (hcs : barcodeCommands ⟨"barcode", attributes⟩ fill = .ok cs) (p : TextPosition) :
    .barcode (.text p) ∈ cs ↔ p.word = v := by
  obtain ⟨position, hp, hw⟩ :=
    h.variant? [.none, .above, .below, .both] TextPosition.ofName?_word rfl hv
  obtain ⟨height, width, data, -, -, rfl⟩ := barcodeCommands_eq_ok hcs
  rw [Tag.variant?, hv, Option.bind_some] at hp
  -- An empty position would count as none at all, but the vocabulary has no empty word.
  have hne : v ≠ "" := by
    rintro rfl
    cases hp
  have hn := nonEmpty?_of_value hv hne
  rw [hn, Option.map_some, hp, Option.getD_some, Option.toList_some]
  simp only [List.mem_append, List.mem_cons, List.not_mem_nil, List.map_cons, List.map_nil,
    reduceCtorEq, Command.barcode.injEq, Barcode.text.injEq, or_false, false_or]
  constructor
  · rintro rfl
    exact hw
  · intro hpw
    rw [← hpw, TextPosition.ofName?_word] at hp
    exact Option.some.inj hp

private theorem function_spelled {attributes : Markup.Attributes}
    (h : Sound ⟨"image", attributes⟩) (hv : attributes.get? "fn" = some v)
    {fill locate : String → String} {step : Step}
    (hs : imageStep ⟨"image", attributes⟩ fill locate = .ok step) :
    ∃ path function, step = .image path function
      ∧ (function = 2 ∧ v = "2" ∨ function = 50 ∧ v = "50") := by
  rw [imageStep] at hs
  split at hs
  · cases hs
  · obtain ⟨function, hf, hs⟩ := bind_eq_ok hs
    refine ⟨_, function, (Except.ok.inj hs).symm, ?_⟩
    have hm := h.mem_of_oneOf rfl hv
    simp only [List.mem_cons, List.not_mem_nil, or_false] at hm
    rcases hm with rfl | rfl
    · rw [byteOr, byte?, number?_of_value hv (by decide)] at hf
      exact .inl ⟨(Except.ok.inj hf).symm, rfl⟩
    · rw [byteOr, byte?, number?_of_value hv (by decide)] at hf
      exact .inr ⟨(Except.ok.inj hf).symm, rfl⟩

private theorem cut_spelled {attributes : Markup.Attributes} (h : Sound ⟨"cut", attributes⟩)
    (hv : attributes.get? "type" = some v) {cs : List Command}
    (hcs : commands? ⟨"cut", attributes⟩ = some (.ok cs)) :
    ∃ kind, (cs = [.control (.cut kind)] ∨ ∃ dots, cs = [.control (.feedAndCut kind dots)])
      ∧ kind.word = v := by
  obtain ⟨dots, -, hcs⟩ := bind_eq_ok (Option.some.inj hcs)
  have hk : (if attributes.get? "type" = some "full" then Cut.full else Cut.part).word = v := by
    have hm := h.mem_of_oneOf rfl hv
    simp only [List.mem_cons, List.not_mem_nil, or_false] at hm
    rcases hm with rfl | rfl
    · rw [if_pos hv]
      rfl
    · rw [if_neg (by rw [hv]; decide)]
      rfl
  refine ⟨_, ?_, hk⟩
  cases dots with
  | none => exact .inl (Except.ok.inj hcs).symm
  | some dots => exact .inr ⟨dots, (Except.ok.inj hcs).symm⟩

private theorem pin_spelled {attributes : Markup.Attributes} (h : Sound ⟨"drawer", attributes⟩)
    (hv : attributes.get? "pin" = some v) {cs : List Command}
    (hcs : commands? ⟨"drawer", attributes⟩ = some (.ok cs)) :
    ∃ pin onTime offTime, cs = [.control (.drawerPulse (DrawerPin.code pin) onTime offTime)]
      ∧ pin.word = v := by
  obtain ⟨onTime, -, hcs⟩ := bind_eq_ok (Option.some.inj hcs)
  obtain ⟨offTime, -, hcs⟩ := bind_eq_ok hcs
  refine ⟨_, onTime, offTime, (Except.ok.inj hcs).symm, ?_⟩
  show (if attributes.get? "pin" = some "5" then DrawerPin.pin5 else DrawerPin.pin2).word = v
  have hm := h.mem_of_oneOf rfl hv
  simp only [List.mem_cons, List.not_mem_nil, or_false] at hm
  rcases hm with rfl | rfl
  · rw [if_neg (by rw [hv]; decide)]
    rfl
  · rw [if_pos hv]
    rfl

/-- **A SOUND WORD IS NEVER REPLACED BY A DEFAULT**. -/
theorem Sound.spelled (h : t.Sound) : t.Spelled := by
  obtain ⟨name, attributes⟩ := t
  constructor
  all_goals
    intro hn v hv
    change name = _ at hn
    subst hn
  case side => exact side_spelled h hv
  case font => exact font_spelled h hv
  case correction => exact fun fill cs hcs => correction_spelled h hv hcs
  case symbology => exact fun fill cs hcs => symbology_spelled h hv hcs
  case position => exact fun fill cs hcs => position_spelled h hv hcs
  case function => exact fun fill locate step hs => function_spelled h hv hs
  case cut => exact fun cs hcs => cut_spelled h hv hcs
  case pin => exact fun cs hcs => pin_spelled h hv hcs

end Tag

end ReceiptPrinter
