import ReceiptPrinter.Proofs.Receipt.Injection
import ReceiptPrinter.Proofs.Receipt.Placement
import ReceiptPrinter.Proofs.Receipt.Restoration

/-! # Enclosure — a styled element stands by itself in its job

    The bytes of a receipt are commands with text in between.  Text that begins
    no command may still be read as something else than it was, and so change
    what is printed; it changes neither the style nor the place where the next
    command is found.  So the style after a job is the one that its steps make
    (`Step.style_feed`), and the reader has a boundary at each command
    (`Step.steps_between`).

    Wherever an element that controls an aspect is walked in a receipt, whatever
    is in it, behind its last byte that aspect is reset (`styles_of_compile`). -/

namespace ReceiptPrinter

open Markup (Node Element)

/-! ## Bytes -/

/-- Whatever is in it, a command that is no text begins with a byte of ASCII. -/
theorem Command.low_bytes {c : Command} (h : (Step.command c).text? = none) :
    ∀ b ∈ c.bytes.head?, b.toNat < 128 := by
  have low : ∀ {first : UInt8} {rest : Bytes}, first.toNat < 128 →
      ∀ b ∈ (first :: rest).head?, b.toNat < 128 := by
    intro first rest hf b hb
    obtain rfl := Option.some.inj hb
    exact hf
  cases c with
  | text e s => cases h
  | line e s => cases h
  | control c =>
      cases c with
      | lineFeeds count =>
          show ∀ b ∈ (List.replicate count (0x0A : UInt8)).head?, b.toNat < 128
          cases count with
          | zero =>
              intro b hb
              cases hb
          | succ n =>
              refine low ?_
              decide
      | cut kind | feedAndCut kind => cases kind <;> (refine low ?_; decide)
      | _ => refine low ?_; decide
  | style s => cases s <;> (refine low ?_; decide)
  | symbol s => cases s <;> (refine low ?_; decide)
  | graphics g => cases g <;> (refine low ?_; decide)
  | barcode b =>
      cases b with
      | print kind data =>
          show ∀ b ∈ (if kind ≤ 6 then _ else _ : Bytes).head?, b.toNat < 128
          split <;> (refine low ?_; decide)
      | _ => refine low ?_; decide

namespace Step

variable {load : String → Except FileFault Bytes}

theorem low_bytes {step : Step} {bytes : Bytes} (ht : step.text? = none)
    (sent : step.bytes load = .ok bytes) : ∀ b ∈ bytes.head?, b.toNat < 128 := by
  cases step with
  | command c =>
      obtain ⟨-, rfl⟩ := Command.encode_eq_ok sent
      exact Command.low_bytes ht
  | image path function =>
      rw [Step.bytes] at sent
      split at sent
      · cases sent
      · obtain ⟨image, -, hcs⟩ := Bmp.encodeAll_of_print sent
        obtain ⟨-, rfl⟩ := Command.sent_of_encodeAll hcs
        exact Command.low_bytes (c := .graphics (.store image Graphics.firstColor)) rfl
  | fault e => cases sent

/-- What a step that is no text means. -/
def marks (step : Step) : List Event :=
  if step.text?.isSome then [] else step.events

/-- The bytes of a step are pieces, or text that begins no command. -/
theorem interleaves {step : Step} {bytes : Bytes} (sent : step.bytes load = .ok bytes)
    (inert : ∀ text, step.text? = some text → Text.Inert text.2) :
    Event.Interleaves bytes step.marks := by
  cases ht : step.text? with
  | some text =>
      rw [marks, ht]
      exact .of_plain (plain_of_text ht (inert text ht) sent)
  | none =>
      have legible : step.Legible := legible_of_text? fun text h => by
        rw [ht] at h
        cases h
      rw [marks, ht]
      exact .of_reads (reads sent legible) (low_bytes ht sent)

/-- The bytes of a job whose texts are inert. -/
theorem interleaves_allBytes {parts : List Step} {bytes : Bytes}
    (sent : allBytes load parts = .ok bytes)
    (inert : ∀ text ∈ parts.filterMap text?, Text.Inert text.2) :
    Event.Interleaves bytes (parts.flatMap marks) := by
  induction parts generalizing bytes with
  | nil =>
      rw [← Except.ok.inj sent]
      exact .nil
  | cons step rest ih =>
      obtain ⟨first, others, hf, ho, rfl⟩ := allBytes_cons_eq_ok sent
      have hfirst := interleaves hf fun text ht =>
        inert text (List.mem_filterMap.mpr ⟨step, List.mem_cons_self, ht⟩)
      refine hfirst.append (ih ho fun text ht => ?_)
      obtain ⟨other, ho, ht⟩ := List.mem_filterMap.mp ht
      exact inert text (List.mem_filterMap.mpr ⟨other, List.mem_cons_of_mem step ho, ht⟩)

/-- The texts of a job change no style. -/
theorem afterAll_marks (style : TextStyle) (parts : List Step) :
    style.afterAll (parts.flatMap marks) = style.afterSteps parts := by
  induction parts generalizing style with
  | nil => rfl
  | cons step rest ih =>
      have hstep : style.afterAll step.marks = style.afterAll step.events := by
        rw [marks]
        split
        next ht => exact (afterAll_text ht style).symm
        · rfl
      rw [List.flatMap_cons, TextStyle.afterAll_append, ih, hstep, TextStyle.afterSteps,
        TextStyle.afterSteps, List.flatMap_cons, TextStyle.afterAll_append]

/-- The style of a printer after a job whose texts are inert. -/
theorem style_feed {parts : List Step} {bytes : Bytes} (sent : allBytes load parts = .ok bytes)
    (inert : ∀ text ∈ parts.filterMap text?, Text.Inert text.2) (p : TextPrinter) :
    (p.feed bytes).1.style = p.style.afterSteps parts := by
  rw [(interleaves_allBytes sent inert).style_feed, afterAll_marks]

end Step

/-! ## Receipts -/

/-- The bytes of a job, taken apart where some of its steps end. -/
theorem Step.allBytes_append_eq_ok {load : String → Except FileFault Bytes} {xs ys : List Step}
    {bytes : Bytes} (h : Step.allBytes load (xs ++ ys) = .ok bytes) :
    ∃ x y, Step.allBytes load xs = .ok x ∧ Step.allBytes load ys = .ok y ∧ bytes = x ++ y := by
  rw [Step.allBytes_append] at h
  obtain ⟨x, hx, h⟩ := bind_eq_ok h
  obtain ⟨y, hy, rfl⟩ := map_eq_ok h
  exact ⟨x, y, hx, hy, rfl⟩

/-- An element that controls an aspect has a style, unless its attributes are
    refused. -/
theorem form_of_aspects (t : Tag) (locate : String → String) (controls : aspects t.name ≠ []) :
    ∃ r, t.styles? = some r ∧ t.form locate = match r with
      | .ok (on, off) => .styled on off
      | .error fault => .refused fault := by
  have hname : t.name ∈ Tag.styleNames := by
    rw [aspects.eq_def] at controls
    split at controls
    case h_6 => exact absurd rfl controls
    all_goals
      next h =>
        rw [h]
        decide
  have hother : ∀ name ∈ Tag.styleNames, name ∉ Tag.basicNames := by decide
  simp only [Tag.basicNames, List.mem_cons, List.not_mem_nil, or_false, not_or] at hother
  obtain ⟨htext, hline, hif, hfor⟩ := hother _ hname
  obtain ⟨r, hr⟩ := Option.ne_none_iff_exists'.mp (Tag.styles?_ne_none hname)
  refine ⟨r, hr, ?_⟩
  rw [Tag.form_of_other htext hline hif hfor, hr]
  rcases r with fault | ⟨on, off⟩ <;> rfl

/-- The steps of an element that controls an aspect. -/
theorem Walk.run_controlling {o : Type} [Members o] {s : Settings} {e : Encoding} {name : String}
    {attributes : Markup.Attributes} {children : List Node} {c : Option (Context o)}
    (controls : aspects name ≠ [])
    (sent : Step.Faultless ((node s e (.element name attributes children)).run c).1) :
    ∃ on off inner, on.aspects = aspects name ∧ off.aspects = aspects name ∧ off.isOff = true
      ∧ ((node s e (.element name attributes children)).run c).1
        = [.command (.style on)] ++ inner ++ [.command (.style off)] := by
  rw [node] at sent ⊢
  cases he : encodingOf e attributes with
  | error fault =>
      rw [he] at sent
      exact absurd sent (Step.not_faultless_fault fault [])
  | ok around =>
      rw [he] at sent
      dsimp only at sent ⊢
      obtain ⟨r, hr, hform⟩ := form_of_aspects ⟨name, attributes⟩ s.locate controls
      rw [element_eq_ofForm, hform] at sent ⊢
      rcases r with fault | ⟨on, off⟩
      · exact absurd sent (Step.not_faultless_fault fault [])
      · obtain ⟨hon, hoff, isOff⟩ := aspects_of_styles hr
        exact ⟨on, off, _, hon, hoff, isOff, run_between on off (keeps_nodes s around children) c⟩

/-- The bytes of a style command begin with one of ASCII. -/
theorem Style.bytes_eq_cons (command : Style) :
    ∃ first rest, command.bytes = first :: rest ∧ first.toNat < 128 := by
  cases command <;> exact ⟨_, _, rfl, by decide⟩

theorem Step.allBytes_style {load : String → Except FileFault Bytes} {command : Style}
    {bytes : Bytes} (h : Step.allBytes load [.command (.style command)] = .ok bytes) :
    bytes = command.bytes ∧ Event.Reads command.bytes command.events := by
  obtain ⟨first, others, hf, ho, rfl⟩ := Step.allBytes_cons_eq_ok h
  obtain rfl := Except.ok.inj ho
  obtain ⟨hfault, rfl⟩ := Command.encode_eq_ok hf
  exact ⟨List.append_nil _, command.reads_bytes hfault⟩

/-- What stands between two styles stands by itself in a job. -/
theorem Step.steps_between {load : String → Except FileFault Bytes} {before inner : List Step}
    {on off : Style} {x y : Bytes} (hx : Step.allBytes load before = .ok x)
    (inertx : ∀ text ∈ before.filterMap Step.text?, Text.Inert text.2)
    (hy : Step.allBytes load ([.command (.style on)] ++ inner ++ [.command (.style off)]) = .ok y)
    (inerty : ∀ text ∈ ([Step.command (.style on)] ++ inner).filterMap Step.text?,
      Text.Inert text.2)
    (z : Bytes) :
    Event.steps (x ++ y ++ z) = Event.steps x ++ Event.steps y ++ Event.steps z := by
  obtain ⟨uv, w, huv, hw, rfl⟩ := Step.allBytes_append_eq_ok hy
  obtain ⟨u, v, hu, hv, rfl⟩ := Step.allBytes_append_eq_ok huv
  have front := Step.interleaves_allBytes hx inertx
  have middle := Step.interleaves_allBytes huv inerty
  obtain ⟨rfl, -⟩ := Step.allBytes_style hu
  obtain ⟨rfl, last⟩ := Step.allBytes_style hw
  obtain ⟨first, rest, hon, lowOn⟩ := on.bytes_eq_cons
  obtain ⟨final, tail, hoff, lowOff⟩ := off.bytes_eq_cons
  -- Text in front of a style may take bytes along, but not the first one of the style.
  have opening : ∀ after, Event.steps (x ++ (on.bytes ++ after))
      = Event.steps x ++ Event.steps (on.bytes ++ after) := by
    intro after
    rw [hon]
    exact front.steps_append lowOn (rest ++ after)
  have closing : ∀ after, Event.steps (on.bytes ++ v ++ (off.bytes ++ after))
      = Event.steps (on.bytes ++ v) ++ Event.steps (off.bytes ++ after) := by
    intro after
    rw [hoff]
    exact middle.steps_append lowOff (tail ++ after)
  have whole := closing []
  rw [List.append_nil] at whole
  calc Event.steps (x ++ (on.bytes ++ v ++ off.bytes) ++ z)
      = Event.steps (x ++ (on.bytes ++ (v ++ (off.bytes ++ z)))) := by
        simp only [List.append_assoc]
    _ = Event.steps x ++ Event.steps (on.bytes ++ v ++ (off.bytes ++ z)) := by
        rw [opening, List.append_assoc on.bytes]
    _ = Event.steps x ++ (Event.steps (on.bytes ++ v)
          ++ (Event.steps off.bytes ++ Event.steps z)) := by
        rw [closing, last.steps_append]
    _ = Event.steps x ++ Event.steps (on.bytes ++ v ++ off.bytes) ++ Event.steps z := by
        rw [whole, List.append_assoc, List.append_assoc]

/-- **A RECEIPT LEAVES NO STYLE BEHIND**.  If a receipt compiles and the texts that
    it sends begin no command, a printer whose style is the first one has that
    style again after the bytes.  And wherever an element that controls an
    aspect is walked, its bytes stand by themselves: the reader has a boundary
    in front of them and behind them, and whatever the style was in front, the
    aspect is reset behind. -/
theorem styles_of_compile {o : Type} [Members o] {s : Settings}
    {load : String → Except FileFault Bytes} {root : Element} {c : Option (Context o)}
    {bytes : Bytes}
    (compiled : (s.compile load root c).1 = .ok bytes)
    (inert : ∀ text ∈ s.texts root c, Text.Inert text.2) :
    (∀ p : TextPrinter, p.style = {} → (p.feed bytes).1.style = {})
      ∧ ∀ (e around : Encoding) (name : String) (attributes : Markup.Attributes)
          (children : List Node) (d : Option (Context o)) (before after : List Step),
          Encoding.ofName s.encoding = .ok e →
          Walk.Reaches s e root.toNode c before around (.element name attributes children) d after →
          aspects name ≠ [] →
          ∃ x y z, bytes = x ++ y ++ z ∧ Step.allBytes load before = .ok x
            ∧ Step.allBytes load
                ((Walk.node s around (.element name attributes children)).run d).1 = .ok y
            ∧ Step.allBytes load after = .ok z
            ∧ Event.steps bytes = Event.steps x ++ Event.steps y ++ Event.steps z
            ∧ ∀ (p : TextPrinter), ∀ a ∈ aspects name, a.Same (p.feed y).1.style {} := by
  obtain ⟨e, he, hplan, hbytes⟩ := Settings.plan_of_compile compiled
  rw [Settings.texts, hplan] at inert
  dsimp only at inert
  constructor
  · intro p hp
    refine TextStyle.eq_of_same fun a => ?_
    rw [Step.style_feed hbytes inert, hp]
    exact or_self_iff.mp (Walk.restores_node s e root.toNode c {} a)
  · intro e' around name attributes children d before after he' reaches controls
    obtain rfl := Except.ok.inj (he.symm.trans he')
    have hrun := reaches.run (Step.faultless_of_allBytes hbytes)
    rw [hrun] at hbytes inert
    simp only [List.filterMap_append, List.forall_mem_append] at inert
    obtain ⟨xy, z, hxy, hz, rfl⟩ := Step.allBytes_append_eq_ok hbytes
    obtain ⟨x, y, hx, hy, rfl⟩ := Step.allBytes_append_eq_ok hxy
    obtain ⟨on, off, inner, -, hoff, isOff, hmid⟩ :=
      Walk.run_controlling controls (Step.faultless_of_allBytes hy)
    refine ⟨x, y, z, rfl, hx, hy, hz, ?_, fun p a ha => ?_⟩
    · have hy' := hmid ▸ hy
      have inert' := hmid ▸ inert.1.2
      rw [List.filterMap_append, List.forall_mem_append] at inert'
      exact Step.steps_between hx inert.1.1 hy' inert'.1 z
    · rw [Step.style_feed hy inert.1.2, hmid, TextStyle.afterSteps_append, TextStyle.afterSteps,
        List.flatMap_singleton]
      exact Style.same_of_off isOff (hoff ▸ ha) _

/-- A receipt with a style in one of its kind, and in front of both ends a byte
    that begins a sequence of UTF-8. -/
def nestedReceipt : Element :=
  ⟨"receipt", [("encoding", "latin1")],
    [.element "bold" [] [.element "bold" [] [.text "Ã"], .text "é"], .element "cut" [] []]⟩

/-- The bytes of the outer style. -/
def nestedBold : Bytes := [
  0x1B, 0x45, 0x01, 0x1B, 0x45, 0x01, 0xC3, 0x1B, 0x45, 0x00, 0xE9, 0x1B, 0x45, 0x00]

theorem styles_nestedReceipt :
    (({} : Settings).compile (fun _ => .error .notFound) nestedReceipt (none : Option Context)).1
        = .ok (nestedBold ++ [0x1D, 0x56, 0x01])
      ∧ (∀ text ∈ ({} : Settings).texts nestedReceipt (none : Option Context), Text.Inert text.2)
      ∧ (TextPrinter.standard.feed (nestedBold ++ [0x1D, 0x56, 0x01])).1.style = {}
      ∧ ∀ p : TextPrinter, (p.feed nestedBold).1.style.bold = false := by
  have compiled : (({} : Settings).compile (fun _ => .error .notFound) nestedReceipt
      (none : Option Context)).1 = .ok (nestedBold ++ [0x1D, 0x56, 0x01]) := rfl
  have inert : ∀ text ∈ ({} : Settings).texts nestedReceipt (none : Option Context),
      Text.Inert text.2 := by
    decide
  obtain ⟨whole, parts⟩ := styles_of_compile compiled inert
  have named : Walk.encodingOf .ascii [("encoding", "latin1")] = .ok .latin1 := rfl
  have enters : Walk.Enters ⟨"receipt", [("encoding", "latin1")]⟩
      (Walk.nodes {} .latin1 ([] ++ .element "bold" [] [.element "bold" [] [.text "Ã"], .text "é"]
        :: [.element "cut" [] []])) (none : Option Context) .transparent [] none [] := .transparent
  obtain ⟨x, y, z, -, -, hy, -, -, reset⟩ :=
    parts .ascii .latin1 "bold" _ _ none _ _ rfl (.inside named enters (.here ..))
      (List.cons_ne_nil _ _)
  obtain rfl : nestedBold = y := Except.ok.inj hy
  exact ⟨compiled, inert, whole _ rfl, fun p => reset p .bold (List.mem_singleton_self _)⟩

end ReceiptPrinter
