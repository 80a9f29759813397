import ReceiptPrinter.Proofs.Markup.Grammar

/-! # Numbers — integers of the vocabulary and what is sent for them

    A command holds bytes and words, and an attribute holds a text in which the
    vocabulary reads an integer.  Whatever the element, and whether or not it was
    validated: if its commands are made then they hold the integers of its
    attributes, and a default only where an attribute has none
    (`Tag.counted`). -/

namespace ReceiptPrinter.Tag

/-- The numbers in the commands of an element are those in its attributes. -/
structure Counted (t : Tag) : Prop where
  underline : t.name = "underline" → ∀ styles, t.styles? = some (.ok styles) →
    ∃ mode, styles = (.underline mode, .underline 0)
      ∧ (t.integer? "mode").getD defaultUnderline.toNat = mode.toNat
  size : t.name = "size" → ∀ styles, t.styles? = some (.ok styles) →
    ∃ width height, styles = (.size width height, .normalSize)
      ∧ (t.integer? "width").getD 1 = width.toNat ∧ (t.integer? "height").getD 1 = height.toNat
  symbol : t.name = "qrcode" → ∀ fill cs, t.symbolCommands fill = .ok cs →
    ∃ data size level, cs = Command.wholeSymbol data size level
      ∧ (t.integer? "size").getD defaultSymbolSize.toNat = size.toNat
  bars : t.name = "barcode" → ∀ fill cs, t.barcodeCommands fill = .ok cs →
    ∃ height width, ∃ positions : List TextPosition, ∃ kind data,
      cs = [.barcode (.height height), .barcode (.width width)]
          ++ positions.map (fun p => .barcode (.text p)) ++ [.barcode (.print kind data)]
        ∧ (t.integer? "height").getD defaultBarcodeHeight.toNat = height.toNat
        ∧ (t.integer? "width").getD defaultBarcodeWidth.toNat = width.toNat
  feed : t.name = "feed" → ∀ cs, t.commands? = some (.ok cs) →
    (∃ lines : UInt8, t.integer? "lines" = some ↑lines.toNat
        ∧ cs = [.control (.feedLines lines)])
      ∨ ∃ dots : Option UInt8, t.integer? "lines" = none
        ∧ t.integer? "dots" = dots.map (fun n => (n.toNat : Int))
        ∧ cs = dots.toList.map fun n => .control (.feedDots n)
  cut : t.name = "cut" → ∀ cs, t.commands? = some (.ok cs) →
    ∃ kind, ∃ dots : Option UInt8, t.integer? "feed" = dots.map (fun n => (n.toNat : Int))
      ∧ cs = [.control (dots.elim (.cut kind) (.feedAndCut kind))]
  drawer : t.name = "drawer" → ∀ cs, t.commands? = some (.ok cs) →
    ∃ pin onTime offTime, cs = [.control (.drawerPulse pin onTime offTime)]
      ∧ (t.integer? "onTime").getD drawerOnTime.toNat = onTime.toNat
      ∧ (t.integer? "offTime").getD drawerOffTime.toNat = offTime.toNat
  beep : t.name = "beep" → ∀ cs, t.commands? = some (.ok cs) →
    ∃ times duration, cs = [.control (.beep times duration)]
      ∧ (t.integer? "times").getD defaultBeepTimes.toNat = times.toNat
      ∧ (t.integer? "duration").getD defaultBeepDuration.toNat = duration.toNat
  spacing : t.name = "spacing" → ∀ cs, t.commands? = some (.ok cs) →
    ∃ character line : Option UInt8,
      t.integer? "character" = character.map (fun n => (n.toNat : Int))
        ∧ t.integer? "line" = line.map (fun n => (n.toNat : Int))
        ∧ cs = (character.toList.map fun n => .style (.characterSpacing n))
          ++ line.toList.map fun n => .style (.lineSpacing n)
  margin : t.name = "margin" → ∀ cs, t.commands? = some (.ok cs) →
    ∃ left : Option UInt16, t.integer? "left" = left.map (fun n => (n.toNat : Int))
      ∧ cs = left.toList.map fun n => .control (.leftMargin n)
  codepage : t.name = "codepage" → ∀ cs, t.commands? = some (.ok cs) →
    ∃ table : Option UInt8, t.integer? "value" = table.map (fun n => (n.toNat : Int))
      ∧ cs = table.toList.map fun n => .style (.codePage n)

/-! ## Codes -/

section

variable {t : Tag} {fill : String → String} {cs : List Command}

/-- The commands of a QR symbol, with its level of correction. -/
theorem symbolCommands_eq_ok (h : t.symbolCommands fill = .ok cs) :
    ∃ data size, t.byteOr "size" defaultSymbolSize = .ok size
      ∧ cs = Command.wholeSymbol data size
        ((t.variant? "errorLevel" Correction.ofName?).getD .m).code := by
  obtain ⟨size, hsize, h⟩ := bind_eq_ok h
  exact ⟨_, size, hsize, (Except.ok.inj h).symm⟩

/-- The commands of a bar code, with its symbology and the position of its text. -/
theorem barcodeCommands_eq_ok (h : t.barcodeCommands fill = .ok cs) :
    ∃ height width data, t.byteOr "height" defaultBarcodeHeight = .ok height
      ∧ t.byteOr "width" defaultBarcodeWidth = .ok width
      ∧ cs = [.barcode (.height height), .barcode (.width width)]
        ++ (((t.attributes.nonEmpty? "hri").map fun name =>
            (TextPosition.ofName? name).getD .none).toList.map fun p => .barcode (.text p))
        ++ [.barcode
            (.print ((t.variant? "type" BarcodeKind.ofName?).getD .code128).code data)] := by
  obtain ⟨height, hheight, h⟩ := bind_eq_ok h
  obtain ⟨width, hwidth, h⟩ := bind_eq_ok h
  exact ⟨height, width, _, hheight, hwidth, (Except.ok.inj h).symm⟩

end

/-! ## Elements -/

/-- **A NUMBER IS NEVER REPLACED BY A DEFAULT**, nor by another number. -/
theorem counted (t : Tag) : t.Counted := by
  obtain ⟨name, attributes⟩ := t
  constructor
  all_goals
    intro hn
    change name = _ at hn
    subst hn
  case underline =>
    intro styles h
    obtain ⟨mode, hmode, h⟩ := bind_eq_ok (Option.some.inj h)
    exact ⟨mode, (Except.ok.inj h).symm, integer?_of_byteOr hmode⟩
  case size =>
    intro styles h
    obtain ⟨width, hwidth, h⟩ := bind_eq_ok (Option.some.inj h)
    obtain ⟨height, hheight, h⟩ := bind_eq_ok h
    exact ⟨width, height, (Except.ok.inj h).symm, integer?_of_byteOr hwidth,
      integer?_of_byteOr hheight⟩
  case symbol =>
    intro fill cs h
    obtain ⟨data, size, hsize, hcs⟩ := symbolCommands_eq_ok h
    exact ⟨data, size, _, hcs, integer?_of_byteOr hsize⟩
  case bars =>
    intro fill cs h
    obtain ⟨height, width, data, hheight, hwidth, hcs⟩ := barcodeCommands_eq_ok h
    exact ⟨height, width, _, _, data, hcs, integer?_of_byteOr hheight, integer?_of_byteOr hwidth⟩
  case feed =>
    -- The dots of a feed are only read if it has no lines.
    intro cs h
    obtain ⟨lines, hlines, h⟩ := bind_eq_ok (Option.some.inj h)
    cases lines with
    | some lines => exact .inl ⟨lines, integer?_of_byte? hlines, (Except.ok.inj h).symm⟩
    | none =>
        obtain ⟨dots, hdots, h⟩ := bind_eq_ok h
        refine .inr ⟨dots, integer?_of_byte? hlines, integer?_of_byte? hdots, ?_⟩
        cases dots with
        | none | some dots => exact (Except.ok.inj h).symm
  case cut =>
    intro cs h
    obtain ⟨dots, hdots, h⟩ := bind_eq_ok (Option.some.inj h)
    refine ⟨if attributes.get? "type" = some "full" then .full else .part, dots,
      integer?_of_byte? hdots, ?_⟩
    cases dots with
    | none | some dots => exact (Except.ok.inj h).symm
  case drawer =>
    intro cs h
    obtain ⟨onTime, hon, h⟩ := bind_eq_ok (Option.some.inj h)
    obtain ⟨offTime, hoff, h⟩ := bind_eq_ok h
    exact ⟨_, onTime, offTime, (Except.ok.inj h).symm, integer?_of_byteOr hon,
      integer?_of_byteOr hoff⟩
  case beep =>
    intro cs h
    obtain ⟨times, htimes, h⟩ := bind_eq_ok (Option.some.inj h)
    obtain ⟨duration, hduration, h⟩ := bind_eq_ok h
    exact ⟨times, duration, (Except.ok.inj h).symm, integer?_of_byteOr htimes,
      integer?_of_byteOr hduration⟩
  case spacing =>
    intro cs h
    obtain ⟨character, hcharacter, h⟩ := bind_eq_ok (Option.some.inj h)
    obtain ⟨line, hline, h⟩ := bind_eq_ok h
    exact ⟨character, line, integer?_of_byte? hcharacter, integer?_of_byte? hline,
      (Except.ok.inj h).symm⟩
  case margin =>
    intro cs h
    obtain ⟨left, hleft, h⟩ := bind_eq_ok (Option.some.inj h)
    refine ⟨left.map UInt16.ofNat, integer?_of_word? hleft, ?_⟩
    rw [← Except.ok.inj h]
    cases left <;> rfl
  case codepage =>
    intro cs h
    obtain ⟨table, htable, h⟩ := bind_eq_ok (Option.some.inj h)
    exact ⟨table, integer?_of_byte? htable, (Except.ok.inj h).symm⟩

end ReceiptPrinter.Tag
