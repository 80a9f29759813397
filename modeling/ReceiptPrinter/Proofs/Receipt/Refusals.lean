import ReceiptPrinter.Proofs.Image.Printing
import ReceiptPrinter.Proofs.Receipt.Variants
import ReceiptPrinter.Proofs.Receipt.Walks

/-! # Refusals — how a validated receipt can still fail

    Validation cannot see everything: encodings are names, texts are filled in
    later, and images are read from files.  `Settings.Refusal` lists what is
    left, and `numbers_and_words_of_validated` shows that nothing else happens: the
    numbers and words of a validated tree are those that its commands are made of.

    One entry of the list is a numeral.  A zero with a minus in front is in the
    range of the vocabulary, and the compiler refuses it. -/

namespace ReceiptPrinter

open Markup (Node Element)

/-- A value that the vocabulary reads as zero, with a minus in front. -/
def Tag.NegativeZero (t : Tag) (attr v : String) : Prop :=
  t.attributes.get? attr = some v ∧ Tag.Minus v
    ∧ Number.integer64? (Text.trimChars v.toList) = some 0

/-- How compiling a validated tree with these tags can fail, with a context
    present or without one. -/
inductive Settings.Refusal (s : Settings) (tags : List Tag) (present : Bool) : Error → Prop
  | encoding (key : String) : Refusal s tags present (.unknownEncoding key)
  | context {element : String} (h : element = "if" ∨ element = "for") (absent : present = false) :
      Refusal s tags present (.contextRequired element)
  | variable : Refusal s tags present .blankKey
  | source (source : String) : Refusal s tags present (.notEnumerable source)
  | items {source : String} {count limit : Nat} (h : s.maxLoopItems = some limit)
      (more : limit < count) : Refusal s tags present (.tooManyItems source count limit)
  | path : Refusal s tags present (.missingAttribute "image" "path")
  | barcode {length : Nat} (h : 255 < length) :
      Refusal s tags present (.outOfRange .barcodeLength length)
  | symbol {length : Nat} (h : 65532 < length) :
      Refusal s tags present (.outOfRange .symbolLength length)
  | file (path : String) (fault : FileFault) : Refusal s tags present (.namedFile path fault)
  | bitmap (fault : BitmapFault) : Refusal s tags present (.bitmap fault)
  | minus {t : Tag} {attr v : String} {limit : Nat} (ht : t ∈ tags) (h : t.NegativeZero attr v) :
      Refusal s tags present (.attributeRange t.name attr v limit)

/-! ## Steps that fail in allowed ways -/

/-- A step that can only fail in ways that are allowed; images are not read yet. -/
def Step.Within (allowed : Error → Prop) : Step → Prop
  | .command c => ∀ e, c.fault? = some e → allowed e
  | .image _ function => Graphics.functionFault? function = none
  | .fault e => allowed e

namespace Step

variable {s : Settings} {tags : List Tag} {present : Bool}
  {load : String → Except FileFault Bytes}

theorem error_of_encode {c : Command} {e : Error} (h : c.encode = .error e) :
    c.fault? = some e := by
  rw [Command.encode] at h
  split at h
  next k =>
    rw [k]
    exact congrArg some (Except.error.inj h)
  · cases h

theorem refusal_of_bytes {step : Step} {e : Error} (hw : step.Within (s.Refusal tags present))
    (h : step.bytes load = .error e) : s.Refusal tags present e := by
  cases step with
  | command c => exact hw e (error_of_encode h)
  | fault f =>
      rw [← Except.error.inj h]
      exact hw
  | image path function =>
      rw [bytes] at h
      split at h
      next reason _ =>
        rw [← Except.error.inj h]
        exact .file path reason
      · rcases Bmp.error_of_print h with hf | ⟨-, fault, -, rfl⟩
        · cases hf.symm.trans hw
        · exact .bitmap fault

/-- The error of a job is that of one of its steps. -/
theorem refusal_of_allBytes {parts : List Step} {e : Error}
    (hw : ∀ step ∈ parts, step.Within (s.Refusal tags present))
    (h : allBytes load parts = .error e) : s.Refusal tags present e := by
  obtain ⟨step, hm, he⟩ := error_of_mapM (map_eq_error h)
  exact refusal_of_bytes (hw step hm) he

end Step

/-! ## Elements -/

/-- Both scales of a size that is sent are from 1 to 8. -/
theorem Style.sent_of_scales {width height : UInt8} (hw : 1 ≤ width.toNat ∧ width.toNat ≤ 8)
    (hh : 1 ≤ height.toNat ∧ height.toNat ≤ 8) : (Style.size width height).fault? = none := by
  have kw : (decide (1 ≤ width) && decide (width ≤ 8)) = true := by
    simp only [Bool.and_eq_true, decide_eq_true_eq, UInt8.le_iff_toNat_le, UInt8.reduceToNat]
    exact hw
  have kh : (decide (1 ≤ height) && decide (height ≤ 8)) = true := by
    simp only [Bool.and_eq_true, decide_eq_true_eq, UInt8.le_iff_toNat_le, UInt8.reduceToNat]
    exact hh
  rw [Style.fault?, kw, kh]
  rfl

namespace Tag

variable {s : Settings} {tags : List Tag} {present : Bool} {t : Tag} {attr : String}
  {least greatest : Int} {e : Error}

/-- A number of a sound tag is refused for its minus alone. -/
theorem Sound.refusal_of_number? (h : t.Sound) (ht : t ∈ tags)
    (hr : t.range? attr = some (least, greatest)) {limit : Nat} (hg : greatest ≤ limit)
    (he : t.number? attr limit = .error e) : s.Refusal tags present e := by
  cases hv : t.attributes.get? attr with
  | none =>
      rw [Tag.number?, Markup.Attributes.nonEmpty?, hv] at he
      cases he
  | some v =>
      obtain ⟨n, hn, -, -, hz, hread⟩ := h.number? hr hv
      rw [hread limit hg] at he
      by_cases hm : Minus v
      · rw [if_pos hm] at he
        rw [← Except.error.inj he]
        rw [hz hm] at hn
        exact .minus ht ⟨hv, hm, hn⟩
      · rw [if_neg hm] at he
        cases he

theorem Sound.refusal_of_byte? (h : t.Sound) (ht : t ∈ tags)
    (hr : t.range? attr = some (least, greatest)) (hg : greatest ≤ 255)
    (he : t.byte? attr = .error e) : s.Refusal tags present e :=
  h.refusal_of_number? ht hr hg (map_eq_error he)

theorem Sound.refusal_of_byteOr (h : t.Sound) (ht : t ∈ tags)
    (hr : t.range? attr = some (least, greatest)) (hg : greatest ≤ 255) {default : UInt8}
    (he : t.byteOr attr default = .error e) : s.Refusal tags present e :=
  h.refusal_of_byte? ht hr hg (map_eq_error he)

/-- A byte of a sound tag lies in the range of its rule. -/
theorem Sound.bounds_of_byteOr (h : t.Sound) (hr : t.range? attr = some (least, greatest))
    {default n : UInt8} (hd : least ≤ default.toNat ∧ (default.toNat : Int) ≤ greatest)
    (hb : t.byteOr attr default = .ok n) : least ≤ n.toNat ∧ (n.toNat : Int) ≤ greatest := by
  rw [← integer?_of_byteOr hb]
  cases hv : t.attributes.get? attr with
  | none =>
      rw [integer?, hv]
      exact hd
  | some v =>
      obtain ⟨k, hk, hle, hge⟩ := h.integer64? hr hv
      rw [integer?, hv, Option.bind_some, hk]
      exact ⟨hle, hge⟩

theorem Sound.refusal_of_styles (h : t.Sound) (ht : t ∈ tags)
    (he : t.styles? = some (.error e)) : s.Refusal tags present e := by
  cases t, he using styles_cases with
  | underline attributes he =>
      rcases bind_eq_error (Option.some.inj he) with hm | ⟨mode, -, hm⟩
      · exact h.refusal_of_byteOr ht rfl (by decide) hm
      · cases hm
  | size attributes he =>
      rcases bind_eq_error (Option.some.inj he) with hw | ⟨width, -, hrest⟩
      · exact h.refusal_of_byteOr ht rfl (by decide) hw
      rcases bind_eq_error hrest with hh | ⟨height, -, hrest⟩
      · exact h.refusal_of_byteOr ht rfl (by decide) hh
      · cases hrest
  | _ attributes he => cases he

/-- The styles of a sound tag can be sent. -/
theorem Sound.sent_of_styles (h : t.Sound) {on off : Style}
    (hs : t.styles? = some (.ok (on, off))) : on.fault? = none ∧ off.fault? = none := by
  cases t, hs using styles_cases with
  | underline attributes hs =>
      obtain ⟨mode, -, hm⟩ := bind_eq_ok (Option.some.inj hs)
      cases hm
      exact ⟨rfl, rfl⟩
  | size attributes hs =>
      -- Only here does sending ask for more than a byte, and the vocabulary asks the same.
      obtain ⟨width, hw, hs⟩ := bind_eq_ok (Option.some.inj hs)
      obtain ⟨height, hh, hs⟩ := bind_eq_ok hs
      cases hs
      have bw := h.bounds_of_byteOr rfl (by decide) hw
      have bh := h.bounds_of_byteOr rfl (by decide) hh
      exact ⟨Style.sent_of_scales (by omega) (by omega), rfl⟩
  | _ attributes hs =>
      cases hs
      exact ⟨rfl, rfl⟩

theorem Sound.refusal_of_commands (h : t.Sound) (ht : t ∈ tags)
    (he : t.commands? = some (.error e)) : s.Refusal tags present e := by
  cases t, he using commands_cases with
  | reset attributes he => cases he
  | feed attributes he =>
      rcases bind_eq_error (Option.some.inj he) with hl | ⟨lines, -, he⟩
      · exact h.refusal_of_byte? ht rfl (by decide) hl
      cases lines with
      | some lines => cases he
      | none =>
          rcases bind_eq_error he with hd | ⟨dots, -, he⟩
          · exact h.refusal_of_byte? ht rfl (by decide) hd
          · cases dots <;> cases he
  | cut attributes he =>
      rcases bind_eq_error (Option.some.inj he) with hd | ⟨dots, -, he⟩
      · exact h.refusal_of_byte? ht rfl (by decide) hd
      · cases dots <;> cases he
  | drawer attributes he | beep attributes he =>
      rcases bind_eq_error (Option.some.inj he) with hfirst | ⟨first, -, he⟩
      · exact h.refusal_of_byteOr ht rfl (by decide) hfirst
      rcases bind_eq_error he with hsecond | ⟨second, -, he⟩
      · exact h.refusal_of_byteOr ht rfl (by decide) hsecond
      · cases he
  | spacing attributes he =>
      rcases bind_eq_error (Option.some.inj he) with hc | ⟨character, -, he⟩
      · exact h.refusal_of_byte? ht rfl (by decide) hc
      rcases bind_eq_error he with hl | ⟨line, -, he⟩
      · exact h.refusal_of_byte? ht rfl (by decide) hl
      · cases he
  | margin attributes he =>
      rcases bind_eq_error (Option.some.inj he) with hl | ⟨left, -, he⟩
      · exact h.refusal_of_number? ht rfl (by decide) hl
      · cases he
  | codepage attributes he =>
      rcases bind_eq_error (Option.some.inj he) with hv | ⟨table, -, he⟩
      · exact h.refusal_of_byte? ht rfl (by decide) hv
      · cases he

/-- The commands of an element that do not depend on the context can be sent. -/
theorem sent_of_commands {cs : List Command} (h : t.commands? = some (.ok cs)) :
    ∀ c ∈ cs, c.fault? = none := by
  cases t, h using commands_cases with
  | reset attributes h =>
      cases h
      exact List.forall_mem_singleton.mpr rfl
  | feed attributes h =>
      obtain ⟨lines, -, h⟩ := bind_eq_ok (Option.some.inj h)
      cases lines with
      | some lines =>
          cases h
          exact List.forall_mem_singleton.mpr rfl
      | none =>
          obtain ⟨dots, -, h⟩ := bind_eq_ok h
          cases dots <;> cases h
          · exact List.forall_mem_nil _
          · exact List.forall_mem_singleton.mpr rfl
  | cut attributes h =>
      obtain ⟨dots, -, h⟩ := bind_eq_ok (Option.some.inj h)
      cases dots <;> cases h <;> exact List.forall_mem_singleton.mpr rfl
  | drawer attributes h | beep attributes h =>
      obtain ⟨first, -, h⟩ := bind_eq_ok (Option.some.inj h)
      obtain ⟨second, -, h⟩ := bind_eq_ok h
      cases h
      exact List.forall_mem_singleton.mpr rfl
  | spacing attributes h =>
      obtain ⟨character, -, h⟩ := bind_eq_ok (Option.some.inj h)
      obtain ⟨line, -, h⟩ := bind_eq_ok h
      cases h
      intro c hc
      rcases List.mem_append.mp hc with hc | hc <;>
        obtain ⟨dots, -, rfl⟩ := List.mem_map.mp hc <;> rfl
  | margin attributes h | codepage attributes h =>
      obtain ⟨number, -, h⟩ := bind_eq_ok (Option.some.inj h)
      cases h
      intro c hc
      obtain ⟨n, -, rfl⟩ := List.mem_map.mp hc
      rfl

/-! ### Codes and images -/

variable {attributes : Markup.Attributes} {fill locate : String → String}

theorem Sound.within_of_symbolCommands (h : Sound ⟨"qrcode", attributes⟩) {cs : List Command}
    (hcs : symbolCommands ⟨"qrcode", attributes⟩ fill = .ok cs) :
    ∀ c ∈ cs, (Step.command c).Within (s.Refusal tags present) := by
  obtain ⟨size, hsize, hcs⟩ := bind_eq_ok hcs
  cases hcs
  have hb := h.bounds_of_byteOr rfl (by decide) hsize
  have hm : (Symbol.moduleSize size).fault? = none := by
    have hd : (decide (1 ≤ size) && decide (size ≤ 16)) = true := by
      simp only [Bool.and_eq_true, decide_eq_true_eq, UInt8.le_iff_toNat_le, UInt8.reduceToNat]
      omega
    rw [Symbol.fault?, hd]
    rfl
  intro c hc e he
  simp only [Command.wholeSymbol, Symbol.whole, List.map_cons, List.map_nil, List.mem_cons,
    List.not_mem_nil, or_false] at hc
  rcases hc with rfl | rfl | rfl | rfl | rfl
  · cases he
  · rw [show (Command.symbol (.moduleSize size)).fault? = _ from hm] at he
    cases he
  · cases hl : (Tag.variant? ⟨"qrcode", attributes⟩ "errorLevel" Correction.ofName?).getD .m <;>
      rw [hl] at he <;> cases he
  · have hs : (if 65532 < _ then some (Error.outOfRange .symbolLength _) else none) = some e := he
    split at hs
    next hlong =>
      rw [← Option.some.inj hs]
      exact .symbol hlong
    · cases hs
  · cases he

theorem within_of_barcodeCommands {cs : List Command}
    (hcs : t.barcodeCommands fill = .ok cs) :
    ∀ c ∈ cs, (Step.command c).Within (s.Refusal tags present) := by
  obtain ⟨height, width, data, -, -, rfl⟩ := barcodeCommands_eq_ok hcs
  intro c hc e he
  rcases List.mem_append.mp hc with hc | hc
  · rcases List.mem_append.mp hc with hc | hc
    · simp only [List.mem_cons, List.not_mem_nil, or_false] at hc
      rcases hc with rfl | rfl <;> cases he
    · obtain ⟨p, -, rfl⟩ := List.mem_map.mp hc
      cases he
  · rw [List.mem_singleton.mp hc] at he
    -- No kind is one of those that end with a NUL, so only the length can be wrong.
    have hb : ∀ kind : BarcodeKind, (Barcode.print kind.code data).fault?
        = if 255 < data.length then some (.outOfRange .barcodeLength data.length) else none := by
      intro kind
      cases kind <;> rfl
    have he' := (hb _).symm.trans he
    split at he'
    next hlong =>
      rw [← Option.some.inj he']
      exact .barcode hlong
    · cases he'

/-- The function of a sound image is one there is. -/
theorem Sound.function (h : Sound ⟨"image", attributes⟩) :
    ∃ function, byteOr ⟨"image", attributes⟩ "fn" defaultImageFunction = .ok function
      ∧ Graphics.functionFault? function = none := by
  cases hv : attributes.get? "fn" with
  | none =>
      refine ⟨defaultImageFunction, ?_, rfl⟩
      rw [byteOr, byte?, Tag.number?, Markup.Attributes.nonEmpty?, hv]
      rfl
  | some v =>
      have hm := h.mem_of_oneOf rfl hv
      simp only [List.mem_cons, List.not_mem_nil, or_false] at hm
      rcases hm with rfl | rfl
      · refine ⟨2, ?_, rfl⟩
        rw [byteOr, byte?, number?_of_value hv (by decide)]
        rfl
      · refine ⟨50, ?_, rfl⟩
        rw [byteOr, byte?, number?_of_value hv (by decide)]
        rfl

/-- Only an empty path keeps the step of a sound image from being made. -/
theorem Sound.error_of_imageStep (h : Sound ⟨"image", attributes⟩)
    (he : imageStep ⟨"image", attributes⟩ fill locate = .error e) :
    e = .missingAttribute "image" "path" := by
  obtain ⟨function, hf, -⟩ := h.function
  rw [Tag.imageStep] at he
  split at he
  · exact (Except.error.inj he).symm
  · rw [hf] at he
    cases he

theorem Sound.within_of_imageStep (h : Sound ⟨"image", attributes⟩) {step : Step}
    (hs : imageStep ⟨"image", attributes⟩ fill locate = .ok step) :
    step.Within (s.Refusal tags present) := by
  obtain ⟨function, hf, hg⟩ := h.function
  rw [Tag.imageStep] at hs
  split at hs
  · cases hs
  · rw [hf] at hs
    cases hs
    exact hg

theorem Sound.refusal_of_symbolCommands (h : Sound ⟨"qrcode", attributes⟩)
    (ht : ⟨"qrcode", attributes⟩ ∈ tags)
    (he : symbolCommands ⟨"qrcode", attributes⟩ fill = .error e) : s.Refusal tags present e := by
  rcases bind_eq_error he with hsize | ⟨size, -, he⟩
  · exact h.refusal_of_byteOr ht rfl (by decide) hsize
  · cases he

theorem Sound.refusal_of_barcodeCommands (h : Sound ⟨"barcode", attributes⟩)
    (ht : ⟨"barcode", attributes⟩ ∈ tags)
    (he : barcodeCommands ⟨"barcode", attributes⟩ fill = .error e) :
    s.Refusal tags present e := by
  rcases bind_eq_error he with hheight | ⟨height, -, he⟩
  · exact h.refusal_of_byteOr ht rfl (by decide) hheight
  rcases bind_eq_error he with hwidth | ⟨width, -, he⟩
  · exact h.refusal_of_byteOr ht rfl (by decide) hwidth
  · cases he

theorem Sound.refusal_of_filledSteps (h : t.Sound) (ht : t ∈ tags)
    {parts : (String → String) → Except Error (List Step)}
    (hf : t.filledSteps? locate = some parts) (he : parts fill = .error e) :
    s.Refusal tags present e := by
  cases t, hf using filledSteps_cases with
  | qrcode attributes hf =>
      cases hf
      exact h.refusal_of_symbolCommands ht (map_eq_error he)
  | barcode attributes hf =>
      cases hf
      exact h.refusal_of_barcodeCommands ht (map_eq_error he)
  | image attributes hf =>
      cases hf
      rw [h.error_of_imageStep (map_eq_error he)]
      exact .path

theorem Sound.within_of_filledSteps (h : t.Sound)
    {parts : (String → String) → Except Error (List Step)}
    (hf : t.filledSteps? locate = some parts) {steps : List Step}
    (hs : parts fill = .ok steps) : ∀ step ∈ steps, step.Within (s.Refusal tags present) := by
  have commands : ∀ {cs : List Command},
      (∀ c ∈ cs, (Step.command c).Within (s.Refusal tags present)) →
      ∀ step ∈ cs.map Step.command, step.Within (s.Refusal tags present) := by
    intro cs hcs step hstep
    obtain ⟨c, hc, rfl⟩ := List.mem_map.mp hstep
    exact hcs c hc
  cases t, hf using filledSteps_cases with
  | qrcode attributes hf =>
      cases hf
      obtain ⟨cs, hcs, rfl⟩ := map_eq_ok hs
      exact commands (h.within_of_symbolCommands hcs)
  | barcode attributes hf =>
      cases hf
      obtain ⟨cs, hcs, rfl⟩ := map_eq_ok hs
      exact commands (within_of_barcodeCommands hcs)
  | image attributes hf =>
      cases hf
      obtain ⟨step, hstep, rfl⟩ := map_eq_ok hs
      exact List.forall_mem_singleton.mpr (h.within_of_imageStep hstep)

end Tag

/-! ## Trees -/

theorem Encoding.unknown_of_ofName {name : String} {e : Error} (h : ofName name = .error e) :
    ∃ key, e = .unknownEncoding key := by
  rw [ofName] at h
  split at h
  · cases h
  · exact ⟨_, (Except.error.inj h).symm⟩

namespace Walk

variable {o : Type} {s : Settings} {tags : List Tag} {present : Bool} {P : Step → Prop}
  {content : Walk o}

/-- A walk all of whose steps have a property, with a context or without one. -/
def Yields (present : Bool) (P : Step → Prop) (w : Walk o) : Prop :=
  ∀ c, c.isSome = present → ∀ step ∈ (w.run c).1, P step

theorem yields_nothing : (nothing : Walk o).Yields present P :=
  fun _ _ => List.forall_mem_nil P

theorem yields_fail {e : Error} (h : P (.fault e)) : (fail e : Walk o).Yields present P :=
  fun _ _ => List.forall_mem_singleton.mpr h

theorem yields_followedBy {a b : Walk o} (hk : a.Keeps) (ha : a.Yields present P)
    (hb : b.Yields present P) : (a.followedBy b).Yields present P := by
  intro c hc
  rw [run_followedBy hk]
  exact List.forall_mem_append.mpr ⟨ha c hc, hb c hc⟩

theorem yields_between {on off : Style} (hk : content.Keeps) (h : content.Yields present P)
    (hon : P (.command (.style on))) (hoff : P (.command (.style off))) :
    (between on off content).Yields present P := by
  intro c hc
  rw [run_between on off hk]
  exact List.forall_mem_append.mpr
    ⟨List.forall_mem_cons.mpr ⟨hon, h c hc⟩, List.forall_mem_singleton.mpr hoff⟩

theorem yields_choose {tag : String} {pick : Context o → Walk o}
    (absent : present = false → P (.fault (.contextRequired tag)))
    (h : ∀ c, (pick c).Yields present P) : (choose tag pick).Yields present P := by
  intro c hc
  cases c with
  | none => exact List.forall_mem_singleton.mpr (absent hc.symm)
  | some c => exact h c (some c) hc

theorem yields_withVariable {name : String} {item : ValueOf o} (blank : P (.fault .blankKey))
    (h : content.Yields present P) : (withVariable name item content).Yields present P := by
  intro c hc
  cases c with
  | none => exact List.forall_mem_nil P
  | some context =>
      rw [run_withVariable]
      split
      · exact List.forall_mem_singleton.mpr blank
      · exact h _ hc

theorem yields_forEach {name : String} (blank : P (.fault .blankKey)) (hk : content.Keeps)
    (h : content.Yields present P) (items : List (ValueOf o)) :
    (forEach name content items).Yields present P := by
  induction items with
  | nil => exact yields_nothing
  | cons item rest ih =>
      exact yields_followedBy (withVariable_keeps name item content hk)
        (yields_withVariable blank h) ih

/-- Only a list that is longer than the settings allow is too long. -/
theorem loopFault?_eq_some {source : String} {items : List (ValueOf o)} {e : Error}
    (h : loopFault? s source items = some e) :
    ∃ limit, s.maxLoopItems = some limit ∧ limit < items.length
      ∧ e = .tooManyItems source items.length limit := by
  rw [loopFault?] at h
  split at h
  next limit hlimit =>
    split at h
    next more => exact ⟨limit, hlimit, more, (Option.some.inj h).symm⟩
    · cases h
  · cases h

variable [Members o]

theorem yields_conditional {t : Tag} {condition : String}
    (named : t.required "condition" = .ok condition)
    (absent : present = false → P (.fault (.contextRequired t.name)))
    (h : content.Yields present P) : (conditional t content).Yields present P := by
  rw [conditional, named]
  refine yields_choose absent ?_
  intro c
  split
  · exact h
  · exact yields_nothing

theorem yields_loop {t : Tag} {name source : String} (named : t.required "var" = .ok name)
    (located : t.required "in" = .ok source) (k : t.name = "for") (hk : content.Keeps)
    (h : content.Yields present (Step.Within (s.Refusal tags present))) :
    (loop s t content).Yields present (Step.Within (s.Refusal tags present)) := by
  rw [loop, named, located]
  refine yields_choose (fun absent => .context (.inr k) absent) ?_
  intro c
  rw [overItems.eq_def]
  split
  · exact yields_nothing
  · exact yields_nothing
  next items _ =>
    split
    next fault hfault =>
      obtain ⟨limit, hlimit, more, rfl⟩ := loopFault?_eq_some hfault
      exact yields_fail (.items hlimit more)
    · exact yields_forEach .variable hk h items
  · exact yields_fail (.source source)

/-- The steps of an element that may be missing. -/
theorem forall_mem_ofSteps {parts : Except Error (List Step)}
    (he : ∀ e, parts = .error e → P (.fault e))
    (hs : ∀ steps, parts = .ok steps → ∀ step ∈ steps, P step) :
    ∀ step ∈ ofSteps parts, P step := by
  cases parts with
  | error e => exact List.forall_mem_singleton.mpr (he e rfl)
  | ok steps => exact hs steps rfl

/-- An attribute that must be there is never missed on a sound tag. -/
theorem required_of_sound {t : Tag} (h : t.Sound) {attr : String} {a : Markup.AttributeRule}
    (ha : t.rule? attr = some a) (req : a.required = true) : ∃ v, t.required attr = .ok v := by
  obtain ⟨v, hv⟩ := h.nonEmpty? ha req
  refine ⟨v, ?_⟩
  rw [Tag.required, hv]

theorem yields_element {e : Encoding} {t : Tag} {text : String} (h : t.Sound) (ht : t ∈ tags)
    (hk : content.Keeps) (hc : content.Yields present (Step.Within (s.Refusal tags present))) :
    (element s e t text content).Yields present (Step.Within (s.Refusal tags present)) := by
  have hr {name : String} (k : t.name = name) (attr : String) :
      t.rule? attr = (Markup.rule? name).bind (·.attribute? attr) := by
    rw [Tag.rule?, k]
  refine element_cases (motive := fun w => w.Yields present _) ?plain ?line ?chosen ?repeated
    ?styled ?unstyled ?fixed ?filled ?transparent
  case plain | line =>
    intro _ c _
    refine List.forall_mem_singleton.mpr ?_
    intro e he
    cases he
  case chosen =>
    intro k
    obtain ⟨condition, named⟩ := required_of_sound h (hr k "condition") rfl
    exact yields_conditional named (fun absent => .context (.inl k) absent) hc
  case repeated =>
    intro k
    obtain ⟨name, named⟩ := required_of_sound h (hr k "var") rfl
    obtain ⟨source, located⟩ := required_of_sound h (hr k "in") rfl
    exact yields_loop named located k hk hc
  case styled =>
    intro on off k
    obtain ⟨hon, hoff⟩ := h.sent_of_styles k
    refine yields_between hk hc ?_ ?_
    · exact fun e he => absurd (hon.symm.trans he) (Option.some_ne_none e).symm
    · exact fun e he => absurd (hoff.symm.trans he) (Option.some_ne_none e).symm
  case unstyled =>
    intro fault k
    exact yields_fail (h.refusal_of_styles ht k)
  case fixed =>
    intro parts k c _
    refine forall_mem_ofSteps ?_ ?_
    · intro e he
      rw [map_eq_error he] at k
      exact h.refusal_of_commands ht k
    · intro steps hsteps step hs
      obtain ⟨cs, rfl, rfl⟩ := map_eq_ok hsteps
      obtain ⟨command, hm, rfl⟩ := List.mem_map.mp hs
      intro e he
      rw [Tag.sent_of_commands k command hm] at he
      cases he
  case filled =>
    intro parts k c _
    refine forall_mem_ofSteps ?_ ?_
    · intro e he
      exact h.refusal_of_filledSteps ht k he
    · intro steps hsteps
      exact h.within_of_filledSteps k hsteps
  case transparent => exact fun _ => hc

mutual

/-- **A SOUND TREE FAILS IN ALLOWED WAYS**, whatever the encoding around it. -/
theorem yields_node (e : Encoding) :
    ∀ n : Node, (∀ t ∈ n.tags, t.Sound ∧ t ∈ tags) →
      (node (o := o) s e n).Yields present (Step.Within (s.Refusal tags present))
  | .text content, _ => by
      rw [node]
      split
      · exact yields_nothing
      · intro c _
        refine List.forall_mem_singleton.mpr ?_
        intro e he
        cases he
  | .element name attributes children, h => by
      rw [Node.tags, List.forall_mem_cons] at h
      rw [node]
      split
      next fault hf =>
        rw [encodingOf] at hf
        split at hf
        · obtain ⟨key, rfl⟩ := Encoding.unknown_of_ofName hf
          exact yields_fail (.encoding key)
        · cases hf
      · exact yields_element h.1.1 h.1.2 (keeps_nodes s _ children) (yields_nodes _ children h.2)

theorem yields_nodes (e : Encoding) :
    ∀ ns : List Node, (∀ t ∈ Markup.tagsOf ns, t.Sound ∧ t ∈ tags) →
      (nodes (o := o) s e ns).Yields present (Step.Within (s.Refusal tags present))
  | [], _ => yields_nothing
  | n :: rest, h => by
      rw [Markup.tagsOf, List.forall_mem_append] at h
      rw [nodes]
      exact yields_followedBy (keeps_node s e n) (yields_node e n h.1) (yields_nodes e rest h.2)

end

end Walk

/-- **WHAT A VALIDATED TREE SAYS IS WHAT IS SENT FOR IT**.  The commands of an
    element hold the words and the numbers of its attributes.  Every number in a
    range is converted to the integer that the vocabulary reads, but for a zero
    with a minus in front, which is an error.  So compiling fails only in the
    ways that are listed. -/
theorem numbers_and_words_of_validated {root : Element} (valid : root.validate = .ok ()) :
    (∀ t ∈ root.toNode.tags, t.Spelled ∧ t.Counted
      ∧ ∀ attr v least greatest, t.range? attr = some (least, greatest) →
        t.attributes.get? attr = some v →
        ∃ n : Nat, t.integer? attr = some ↑n ∧ least ≤ n ∧ n ≤ greatest
          ∧ (Tag.Minus v → n = 0) ∧ t.Converted attr v greatest n)
    ∧ ∀ {o : Type} [Members o] (s : Settings) (load : String → Except FileFault Bytes)
        (c : Option (Context o)) (e : Error),
      (s.compile load root c).1 = .error e → s.Refusal root.toNode.tags c.isSome e := by
  have sound := sound_of_validate valid
  refine ⟨fun t ht => ⟨(sound t ht).spelled, t.counted, ?_⟩, ?_⟩
  · intro attr v least greatest hr hv
    exact (sound t ht).converted hr hv
  · intro o _ s load c e he
    have hp : (s.plan root c).1.bind (Step.allBytes load) = .error e := he
    have hv : (if s.validate then root.validate else .ok ()) = .ok () := by
      rw [valid, ite_self]
    rw [Settings.plan, hv] at hp
    cases hn : Encoding.ofName s.encoding with
    | error fault =>
        obtain ⟨key, rfl⟩ := Encoding.unknown_of_ofName hn
        rw [hn] at hp
        rw [← Except.error.inj hp]
        exact .encoding key
    | ok encoding =>
        rw [hn] at hp
        have hy : (Walk.node (o := o) s encoding root.toNode).Yields c.isSome
            (Step.Within (s.Refusal root.toNode.tags c.isSome)) :=
          Walk.yields_node encoding root.toNode fun t ht => ⟨sound t ht, ht⟩
        exact Step.refusal_of_allBytes (hy c rfl) hp

/-- A feed whose lines are a numeral with spare signs. -/
def spareFeed : Tag :=
  ⟨"feed", [("lines", " +007 ")]⟩

/-- A receipt with such a feed, and one with a minus in front of its zero. -/
def zeroReceipt : Element :=
  ⟨"receipt", [],
    [.element spareFeed.name spareFeed.attributes [], .element "feed" [("lines", "-0")] []]⟩

/-- It is validated, and compiling it fails.  The first feed is not to blame:
    seven lines are sent for it, whatever stands for a missing number. -/
theorem refusal_of_zeroReceipt :
    zeroReceipt.validate = .ok ()
      ∧ spareFeed.byte? "lines" = .ok (some 7)
      ∧ (∀ default, spareFeed.byteOr "lines" default = .ok 7)
      ∧ (∀ cs, spareFeed.commands? = some (.ok cs) → cs = [.control (.feedLines 7)])
      ∧ (({} : Settings).compile (fun _ => .error .notFound) zeroReceipt
          (none : Option Context)).1 = .error (.attributeRange "feed" "lines" "-0" 255)
      ∧ ({} : Settings).Refusal zeroReceipt.toNode.tags false
        (.attributeRange "feed" "lines" "-0" 255) := by
  have valid : zeroReceipt.validate = .ok () := rfl
  obtain ⟨said, refused⟩ := numbers_and_words_of_validated valid
  obtain ⟨-, counted, converted⟩ := said spareFeed (List.mem_cons_of_mem _ List.mem_cons_self)
  have seven : spareFeed.integer? "lines" = some 7 := rfl
  have byte : ∀ b : UInt8, (b.toNat : Int) = 7 → b = 7 := by
    intro b hb
    exact UInt8.toNat_inj.mp (Int.ofNat.inj hb)
  obtain ⟨n, hn, -, -, -, hc⟩ := converted "lines" " +007 " 0 255 rfl rfl
  rw [seven] at hn
  obtain ⟨b, hb, hbyte, hbyteOr⟩ := hc.byte (by decide)
  have hb7 : b = 7 := byte b (by rw [hb, ← Option.some.inj hn])
  rw [hb7] at hbyte hbyteOr
  have fails : (({} : Settings).compile (fun _ => .error .notFound) zeroReceipt
      (none : Option Context)).1 = .error (.attributeRange "feed" "lines" "-0" 255) := rfl
  refine ⟨valid, hbyte, hbyteOr, ?_, fails, refused {} _ none _ fails⟩
  intro cs hcs
  rcases counted.feed rfl cs hcs with ⟨lines, hl, rfl⟩ | ⟨dots, hl, -⟩
  · rw [seven] at hl
    rw [byte lines (Option.some.inj hl).symm]
  · rw [seven] at hl
    cases hl

end ReceiptPrinter
