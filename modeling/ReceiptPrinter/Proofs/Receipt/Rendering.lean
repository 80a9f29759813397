import ReceiptPrinter.Proofs.Receipt.Sheet
import ReceiptPrinter.Proofs.Receipt.Walks

/-! # Rendering — a decoded receipt is the one drawn from its tree

    A printer that is sent the commands of a receipt and a sheet that the tree
    is drawn on go through the same states.  `TextPrinter.Shows` relates a
    printer to a sheet; `Walk.Renders` says that the steps of a walk lead from
    related states to related states.  The second is proved form by form of
    walk and element by element, then for whole trees by induction; with the
    meaning of commands it makes decoding the inverse of compiling. -/

namespace ReceiptPrinter

open Markup (Node Element Attributes directText)

/-- A printer that is as far as a sheet: only what cannot be seen is its own. -/
structure TextPrinter.Shows (p : TextPrinter) (s : Sheet) : Prop where
  lineWidth : p.lineWidth = s.lineWidth
  side : p.style.side = s.side
  width : p.style.width = s.scale
  pending : p.pending = s.pending
  output : p.output = s.output
  symbol : p.symbol?.getD [] = Utf8.encode s.symbol

/-- ASCII bytes are those of the characters that are shown. -/
theorem Encoding.ascii_encode (s : String) :
    Encoding.ascii.encode s
      = Utf8.encode (String.ofList (s.toList.map Encoding.ascii.shown)) := by
  have hc : ∀ c, ascii.encodeChar c = String.utf8EncodeChar (ascii.shown c) := by
    intro c
    show [ascii.byte c] = _
    rw [byte, shown]
    by_cases h : c.toNat < 128
    · rw [if_pos h, if_neg fun k => absurd h (Nat.not_lt.mpr k.2), Utf8.encodeChar_one h]
    · rw [if_neg h, if_pos ⟨rfl, Nat.not_lt.mp h⟩]
      rfl
  rw [encode, Utf8.encode, String.toList_ofList, List.flatMap_map]
  exact congrArg (s.toList.flatMap ·) (funext hc)

theorem BarcodeKind.title_eq (kind : BarcodeKind) :
    s!"[{barcodeTitle kind.code}]" = "[" ++ kind.title ++ "]" := by
  cases kind <;> rfl

namespace TextPrinter.Shows

variable {p : TextPrinter} {s : Sheet}

/-! ## Writing -/

theorem aligned (h : p.Shows s) : p.aligned p.pending = blanks s.indent ++ s.pending := by
  rw [TextPrinter.aligned, Sheet.indent, h.side, h.lineWidth, h.pending]
  cases s.side with
  | left => exact String.empty_append.symm
  | center => rfl
  | right => rfl

theorem endLine (h : p.Shows s) : p.endLine.Shows s.endLine :=
  { h with
    pending := rfl
    output := by
      show p.output ++ p.aligned p.pending ++ "\n" = _
      rw [h.aligned, h.output]
      rfl }

theorem flush (h : p.Shows s) : p.flush.Shows s.flush := by
  rw [TextPrinter.flush, Sheet.flush, h.pending]
  split
  · exact h
  · exact h.endLine

theorem add (h : p.Shows s) (text : String) :
    (p.add text).Shows { s with pending := s.pending ++ text } :=
  { h with pending := congrArg (· ++ text) h.pending }

theorem addLine (h : p.Shows s) (line : String) : (p.addLine line).Shows (s.addLines [line]) :=
  { h with output := congrArg (· ++ line ++ "\n") h.output }

/-- A mark with the data that the printer holds as bytes. -/
theorem mark (h : p.Shows s) (line text : String) :
    ((p.mark line).addData (Utf8.encode text)).Shows (s.mark line text) := by
  -- A printer looks at bytes and a sheet at characters: both are empty, or neither.
  have hm : (p.mark line).Shows (s.flush.addLines [line]) := h.flush.addLine line
  rw [TextPrinter.addData, Sheet.mark, Utf8.lenient_encode]
  by_cases ht : text = ""
  · rw [if_pos ht, ht]
    exact hm
  · have he : (Utf8.encode text).isEmpty = false := by
      cases hb : Utf8.encode text with
      | cons b bytes => rfl
      | nil =>
          have k := Utf8.lenient_encode text
          rw [hb] at k
          exact absurd (k.symm.trans (Utf8.lenient_encode "")) ht
    rw [if_neg ht, he]
    exact hm.addLine text

theorem markAlone (h : p.Shows s) (line : String) : (p.mark line).Shows (s.mark line "") :=
  h.mark line ""

theorem barcode (h : p.Shows s) (kind : BarcodeKind) (data : String) :
    (p.apply (.barcode kind.code (Encoding.ascii.encode data))).Shows
      (s.mark ("[" ++ kind.title ++ "]")
        (String.ofList (data.toList.map Encoding.ascii.shown))) := by
  rw [TextPrinter.apply, kind.title_eq, Encoding.ascii_encode]
  exact h.mark _ _

/-- A symbol that is stored and then printed. -/
theorem symbolMark (h : p.Shows s) (data : String) :
    ((p.apply (.storeSymbol (Utf8.encode data))).apply .printSymbol).Shows
      ({ s with symbol := data }.mark "[QRCode]" data) := by
  have hd : (p.apply (.storeSymbol (Utf8.encode data))).Shows { s with symbol := data } :=
    { h with symbol := rfl }
  exact hd.mark "[QRCode]" data

theorem blankLines (h : p.Shows s) (count : Nat) :
    (p.apply (.blankLines count)).Shows (s.flush.addLines (List.replicate count "")) := by
  have hl : ∀ (count : Nat) (s : Sheet), s.addLines (List.replicate count "")
      = { s with output := s.output ++ String.ofList (List.replicate count '\n') } := by
    intro count
    induction count with
    | zero => intro s; exact congrArg (fun o => { s with output := o }) String.append_empty.symm
    | succ count ih =>
        intro s
        rw [List.replicate_succ, List.replicate_succ, String.ofList_cons]
        refine (ih _).trans ?_
        simp only [String.append_empty, String.append_assoc]
        rfl
  rw [hl]
  exact { h.flush with output := congrArg (· ++ _) h.flush.output }

theorem put (h : p.Shows s) (c : Char) : (p.apply (.ofChar c)).Shows (s.put c) := by
  rw [Event.ofChar, Sheet.put]
  by_cases hn : c = '\n'
  · subst hn
    exact h.endLine
  rw [if_neg hn, if_neg hn]
  by_cases hf : c = '\x0c'
  · subst hf
    exact h.endLine.addLine ""
  rw [if_neg hf, if_neg hf]
  by_cases ht : c = '\t'
  · rw [if_pos ht, if_pos ht]
    exact h.add _
  rw [if_neg ht, if_neg ht]
  by_cases hc : c.toNat < 32 ∨ c.toNat = 127
  · rw [if_pos hc, if_pos hc]
    exact h
  · rw [if_neg hc, if_neg hc]
    show (p.add (String.ofList (List.replicate p.style.width c))).Shows _
    rw [h.width]
    exact h.add _

theorem write (h : p.Shows s) (e : Encoding) (text : String) :
    (p.applyAll (e.events text)).Shows (s.write e text) := by
  rw [Encoding.events, Sheet.write]
  induction text.toList generalizing p s with
  | nil => exact h
  | cons c cs ih => exact ih (h.put (e.shown c))

end TextPrinter.Shows

/-! ## Walks and drawings -/

/-- Events that take a printer from what a sheet shows to what is drawn on it. -/
def Event.Draw (events : List Event) (f : Sheet → Sheet) : Prop :=
  ∀ (p : TextPrinter) (s : Sheet), p.Shows s → (p.applyAll events).Shows (f s)

namespace Walk

open Event (Draw)

variable {o : Type}

/-- A walk whose steps in a context, unless one of them fails, draw what is done
    to the sheet. -/
def Renders (w : Walk o) (c : Option (Context o)) (f : Sheet → Sheet) : Prop :=
  Step.Faultless (w.run c).1 → Draw ((w.run c).1.flatMap Step.events) f

variable {content : Walk o} {c : Option (Context o)} {f : Sheet → Sheet}

theorem renders_nothing : (nothing : Walk o).Renders c id :=
  fun _ _ _ h => h

/-- A walk that fails renders anything. -/
theorem renders_fail (e : Error) : (fail e : Walk o).Renders c f := by
  intro sent
  exact absurd sent (Step.not_faultless_fault e [])

theorem renders_steps {parts : Option (Context o) → List Step}
    (h : Draw ((parts c).flatMap Step.events) f) : (steps parts).Renders c f :=
  fun _ => h

theorem renders_followedBy {a b : Walk o} {g : Sheet → Sheet} (hk : a.Keeps)
    (ha : a.Renders c f) (hb : b.Renders c g) : (a.followedBy b).Renders c (g ∘ f) := by
  intro sent p s hs
  rw [run_followedBy hk] at sent ⊢
  rw [Step.faultless_append] at sent
  rw [List.flatMap_append, TextPrinter.applyAll_append]
  exact hb sent.2 _ _ (ha sent.1 p s hs)

/-- A content between two styles is drawn between what they do to a sheet. -/
theorem renders_between {on off : Style} {enter leave : Sheet → Sheet} (hk : content.Keeps)
    (h : content.Renders c f) (hon : Draw on.events enter) (hoff : Draw off.events leave) :
    (between on off content).Renders c (leave ∘ f ∘ enter) := by
  intro sent p s hs
  rw [run_between on off hk] at sent ⊢
  rw [Step.faultless_append, Step.faultless_cons] at sent
  rw [List.flatMap_append, List.flatMap_cons, TextPrinter.applyAll_append,
    TextPrinter.applyAll_append, List.flatMap_singleton]
  exact hoff _ _ (h sent.1.2 _ _ (hon p s hs))

/-- Steps that may be missing because an attribute cannot be read. -/
theorem renders_ofSteps {parts : Option (Context o) → Except Error (List Step)}
    (h : ∀ steps, parts c = .ok steps → Draw (steps.flatMap Step.events) f) :
    (steps fun c => ofSteps (parts c)).Renders c f := by
  cases hp : parts c with
  | error e =>
      intro sent
      simp only [steps, hp] at sent
      exact absurd sent (Step.not_faultless_fault e [])
  | ok steps =>
      refine renders_steps ?_
      rw [hp]
      exact h steps hp

/-! ### Conditions and loops -/

theorem renders_choose {tag : String} {pick : Context o → Walk o}
    (h : ∀ context, c = some context → (pick context).Renders c f) :
    (choose tag pick).Renders c f := by
  cases c with
  | none => exact renders_fail (.contextRequired tag)
  | some context => exact h context rfl

/-- An item of a loop is drawn in a scope of its own. -/
theorem renders_withVariable {name : String} {item : ValueOf o}
    {draw : Option (Context o) → Sheet → Sheet} (hc : c ≠ none)
    (h : ∀ c, content.Renders c (draw c)) :
    (withVariable name item content).Renders c
      (draw (c.map fun c => c.pushScope.bind name item)) := by
  cases c with
  | none => exact absurd rfl hc
  | some context =>
      intro sent
      rw [run_withVariable] at sent ⊢
      split at sent
      · exact absurd sent (Step.not_faultless_fault .blankKey [])
      next hn =>
        rw [if_neg hn]
        exact h _ sent

theorem renders_forEach {name : String} {draw : Option (Context o) → Sheet → Sheet}
    (hc : c ≠ none) (hk : content.Keeps) (h : ∀ c, content.Renders c (draw c))
    (items : List (ValueOf o)) :
    (forEach name content items).Renders c fun s =>
      items.foldl (fun s item => draw (c.map fun c => c.pushScope.bind name item) s) s := by
  induction items with
  | nil => exact renders_nothing
  | cons item rest ih =>
      exact renders_followedBy (withVariable_keeps name item content hk)
        (renders_withVariable hc h) ih

variable [Members o]

theorem renders_conditional (t : Tag) (h : content.Renders c f) :
    (conditional t content).Renders c (if t.holds c then f else id) := by
  rw [conditional]
  split
  · exact renders_fail _
  next condition hc =>
    rw [← Tag.value_of_required hc]
    refine renders_choose ?_
    rintro context rfl
    rw [t.holds_some]
    split
    · exact h
    · exact renders_nothing

theorem renders_loop (s : Settings) (t : Tag) {draw : Option (Context o) → Sheet → Sheet}
    (hk : content.Keeps) (h : ∀ c, content.Renders c (draw c)) :
    (loop s t content).Renders c fun sheet =>
      (t.items c).foldl (fun sheet item => draw (t.inner c item) sheet) sheet := by
  rw [loop]
  split
  · exact renders_fail _
  next name hn =>
    split
    · exact renders_fail _
    next source hsource =>
      rw [← Tag.value_of_required hn, ← Tag.value_of_required hsource]
      refine renders_choose ?_
      rintro context rfl sent
      have hrun := run_overItems sent
      rw [hrun] at sent ⊢
      exact renders_forEach (Option.some_ne_none context) hk h _ sent

/-! ### Elements -/

/-- A style that only changes what cannot be seen. -/
theorem draw_id {e : Event}
    (h : ∀ p : TextPrinter, ∃ style, p.apply e = { p with style }
      ∧ style.side = p.style.side ∧ style.width = p.style.width) : Draw [e] id := by
  intro p s hs
  obtain ⟨style, he, hside, hwidth⟩ := h p
  show (p.apply e).Shows s
  rw [he]
  exact { hs with side := hside.trans hs.side, width := hwidth.trans hs.width }

theorem draw_bold (on : Bool) : Draw [.bold on] id :=
  draw_id fun p => ⟨{ p.style with bold := on }, rfl, rfl, rfl⟩

theorem draw_underline (on : Bool) : Draw [.underline on] id :=
  draw_id fun p => ⟨{ p.style with underline := on }, rfl, rfl, rfl⟩

theorem draw_invert (on : Bool) : Draw [.invert on] id :=
  draw_id fun p => ⟨{ p.style with invert := on }, rfl, rfl, rfl⟩

theorem draw_skip : Draw [.skip] id :=
  fun _ _ hs => hs

theorem draw_align (side : Alignment) : Draw [.align side] fun s => { s with side } :=
  fun _ _ hs => { hs with side := rfl }

theorem draw_scale (width height : Nat) :
    Draw [.scale width height] fun s => { s with scale := width } :=
  fun _ _ hs => { hs with width := rfl }

theorem draw_reset : Draw [.reset] fun s => { s with side := .left, scale := 1 } :=
  fun _ _ hs => { hs with side := rfl, width := rfl }

/-- What is sent for an attribute is what a sheet reads in it. -/
theorem numberIn?_of_byte? {t : Tag} {attr : String} {n : Option UInt8}
    (h : t.byte? attr = .ok n) : t.numberIn? attr = n.map UInt8.toNat := by
  rw [Tag.numberIn?, Tag.integer?_of_byte? h]
  cases n <;> rfl

theorem numberIn?_of_byteOr {t : Tag} {attr : String} {default n : UInt8}
    (h : t.byteOr attr default = .ok n) : (t.numberIn? attr).getD default.toNat = n.toNat := by
  obtain ⟨b, hb, rfl⟩ := map_eq_ok h
  rw [numberIn?_of_byte? hb]
  cases b <;> rfl

section

variable {e : Encoding} {t : Tag} {text : String} {draw : Option (Context o) → Sheet → Sheet}

/-- What the styles of an element do to a sheet, before and after its content. -/
theorem draw_of_styles {on off : Style} (h : t.styles? = some (.ok (on, off))) :
    ∃ enter leave, Draw on.events enter ∧ Draw off.events leave
      ∧ Sheet.element e t text draw c = leave ∘ draw c ∘ enter := by
  cases t, h using Tag.styles_cases with
  | bold attributes h =>
      cases h
      exact ⟨_, _, draw_bold true, draw_bold false, rfl⟩
  | invert attributes h =>
      cases h
      exact ⟨_, _, draw_invert true, draw_invert false, rfl⟩
  | rotate attributes h =>
      cases h
      exact ⟨_, _, draw_skip, draw_skip, rfl⟩
  | underline attributes h =>
      obtain ⟨mode, -, hm⟩ := bind_eq_ok (Option.some.inj h)
      cases hm
      exact ⟨_, _, draw_underline _, draw_underline _, rfl⟩
  | size attributes h =>
      -- The sheet keeps the width alone: no line is shown higher than another.
      obtain ⟨width, hw, hm⟩ := bind_eq_ok (Option.some.inj h)
      obtain ⟨height, -, hm⟩ := bind_eq_ok hm
      cases hm
      refine ⟨_, _, draw_scale _ _, draw_scale _ _, ?_⟩
      rw [← numberIn?_of_byteOr hw]
      rfl
  | align attributes h =>
      cases h
      exact ⟨_, _, draw_align _, draw_align _, rfl⟩
  | font attributes h =>
      cases h
      exact ⟨_, _, draw_skip, draw_skip, rfl⟩

theorem draw_feedLines (lines : UInt8) : Draw (Control.feedLines lines).events fun s =>
    s.flush.addLines (List.replicate lines.toNat "") :=
  fun _ _ hs => hs.blankLines lines.toNat

theorem draw_mark {events : List Event} {line : String}
    (h : ∀ p : TextPrinter, p.applyAll events = p.mark line) :
    Draw events fun s => s.mark line "" := by
  intro p s hs
  rw [h]
  exact hs.markAlone line

/-- What a feed draws: its lines, if it counts lines and not dots. -/
theorem draw_of_feed {attributes : Markup.Attributes} {cs : List Command}
    (h : Tag.commands? ⟨"feed", attributes⟩ = some (.ok cs)) :
    Draw (cs.flatMap Command.events) (Sheet.element e ⟨"feed", attributes⟩ text draw c) := by
  obtain ⟨lines, hl, h⟩ := bind_eq_ok (Option.some.inj h)
  have hn := numberIn?_of_byte? hl
  cases lines with
  | some lines =>
      have hs : Sheet.element e ⟨"feed", attributes⟩ text draw c
          = fun s => s.flush.addLines (List.replicate lines.toNat "") := by
        funext s
        simp only [Sheet.element, hn, Option.map_some]
      cases h
      rw [hs]
      exact draw_feedLines lines
  | none =>
      have hs : Sheet.element e ⟨"feed", attributes⟩ text draw c = id := by
        funext s
        simp only [Sheet.element, hn, Option.map_none, id]
      obtain ⟨dots, -, h⟩ := bind_eq_ok h
      rw [hs]
      cases dots <;> cases h <;> exact fun _ _ hs => hs

/-- What a cut draws, after a feed of dots or without one. -/
theorem draw_of_cut {attributes : Markup.Attributes} {cs : List Command}
    (h : Tag.commands? ⟨"cut", attributes⟩ = some (.ok cs)) :
    Draw (cs.flatMap Command.events) (Sheet.element e ⟨"cut", attributes⟩ text draw c) := by
  obtain ⟨dots, -, h⟩ := bind_eq_ok (Option.some.inj h)
  show Draw _ fun s =>
    s.mark (if Markup.Attributes.get? attributes "type" = some "full" then _ else _) ""
  by_cases hk : Markup.Attributes.get? attributes "type" = some "full"
  · rw [if_pos hk]
    simp only [if_pos hk] at h
    cases dots <;> cases h <;> exact draw_mark fun _ => rfl
  · rw [if_neg hk]
    simp only [if_neg hk] at h
    cases dots <;> cases h <;> exact draw_mark fun _ => rfl

/-- What the commands of an element draw. -/
theorem draw_of_commands {cs : List Command} (h : t.commands? = some (.ok cs)) :
    Draw (cs.flatMap Command.events) (Sheet.element e t text draw c) := by
  cases t, h using Tag.commands_cases with
  | reset attributes h =>
      cases h
      exact draw_reset
  | feed attributes h => exact draw_of_feed h
  | cut attributes h => exact draw_of_cut h
  | drawer attributes h =>
      obtain ⟨on, -, h⟩ := bind_eq_ok (Option.some.inj h)
      obtain ⟨off, -, h⟩ := bind_eq_ok h
      cases h
      exact draw_skip
  | beep attributes h =>
      obtain ⟨times, -, h⟩ := bind_eq_ok (Option.some.inj h)
      obtain ⟨duration, -, h⟩ := bind_eq_ok h
      cases h
      exact draw_skip
  | spacing attributes h =>
      obtain ⟨character, -, h⟩ := bind_eq_ok (Option.some.inj h)
      obtain ⟨line, -, h⟩ := bind_eq_ok h
      cases h
      cases character <;> cases line <;> exact fun _ _ hs => hs
  | margin attributes h =>
      obtain ⟨left, -, h⟩ := bind_eq_ok (Option.some.inj h)
      cases h
      cases left <;> exact fun _ _ hs => hs
  | codepage attributes h =>
      obtain ⟨table, -, h⟩ := bind_eq_ok (Option.some.inj h)
      cases h
      cases table <;> exact fun _ _ hs => hs

/-- What the codes and images of an element draw. -/
theorem draw_of_filledSteps {locate : String → String}
    {parts : (String → String) → Except Error (List Step)} {steps : List Step}
    (h : t.filledSteps? locate = some parts) (hp : parts (fill c) = .ok steps) :
    Draw (steps.flatMap Step.events) (Sheet.element e t text draw c) := by
  cases t, h using Tag.filledSteps_cases with
  | qrcode attributes h =>
      cases h
      obtain ⟨cs, hcs, rfl⟩ := map_eq_ok hp
      obtain ⟨size, -, hcs⟩ := bind_eq_ok hcs
      cases hcs
      exact fun _ _ hs => hs.symbolMark _
  | barcode attributes h =>
      cases h
      obtain ⟨cs, hcs, rfl⟩ := map_eq_ok hp
      obtain ⟨height, -, hcs⟩ := bind_eq_ok hcs
      obtain ⟨width, -, hcs⟩ := bind_eq_ok hcs
      -- The text beside the bars is printed by the device and not shown.
      cases hn : Markup.Attributes.nonEmpty? attributes "hri" <;> rw [hn] at hcs <;> cases hcs
        <;> exact fun _ _ hs => hs.barcode _ _
  | image attributes h =>
      cases h
      obtain ⟨step, hstep, rfl⟩ := map_eq_ok hp
      rw [Tag.imageStep] at hstep
      split at hstep
      · cases hstep
      · obtain ⟨function, -, hstep⟩ := bind_eq_ok hstep
        cases hstep
        exact draw_mark fun _ => rfl

/-- An element of no name with a meaning is drawn as its content. -/
theorem element_eq (h : t.name ∉ Tag.elementNames) : Sheet.element e t text draw = draw := by
  funext c s
  rw [Sheet.element.eq_def]
  split
  case h_18 => rfl
  all_goals
    next hn =>
      rw [hn] at h
      exact absurd (by decide) h

theorem renders_element (s : Settings) (hk : content.Keeps)
    (h : ∀ c, content.Renders c (draw c)) :
    (element s e t text content).Renders c (Sheet.element e t text draw c) := by
  refine element_cases (motive := fun w => w.Renders c (Sheet.element e t text draw c)) ?plain
    ?line ?chosen ?repeated ?styled ?unstyled ?fixed ?filled ?transparent
  case plain =>
    intro k
    rw [← Tag.mk_of_name k]
    refine renders_steps ?_
    intro p s hs
    show (p.applyAll (e.events _ ++ [])).Shows _
    rw [List.append_nil]
    exact hs.write e _
  case line =>
    intro k
    rw [← Tag.mk_of_name k]
    refine renders_steps ?_
    intro p s hs
    show (p.applyAll (e.events _ ++ [.lineEnd] ++ [])).Shows _
    rw [List.append_nil, TextPrinter.applyAll_append]
    exact (hs.write e _).endLine
  case chosen =>
    intro k
    rw [← Tag.mk_of_name k]
    -- The condition moves out of the function that draws.
    have hf : Sheet.element e ⟨"if", t.attributes⟩ text draw c
        = if (⟨"if", t.attributes⟩ : Tag).holds c then draw c else id := by
      funext s
      show (if _ then _ else _) = _
      split <;> rfl
    rw [hf]
    exact renders_conditional _ (h c)
  case repeated =>
    intro k
    rw [← Tag.mk_of_name k]
    exact renders_loop s _ hk h
  case styled =>
    intro on off k
    obtain ⟨enter, leave, hon, hoff, he⟩ := draw_of_styles (o := o) k
    rw [he]
    exact renders_between hk (h c) hon hoff
  case unstyled =>
    intro fault _
    exact renders_fail fault
  case fixed =>
    intro parts k
    refine renders_ofSteps ?_
    intro steps hsteps
    obtain ⟨cs, rfl, rfl⟩ := map_eq_ok hsteps
    rw [List.flatMap_map]
    exact draw_of_commands k
  case filled =>
    intro parts k
    exact renders_ofSteps fun steps hsteps => draw_of_filledSteps k hsteps
  case transparent =>
    intro hname
    rw [element_eq hname]
    exact h c

end

/-! ### Trees -/

mutual

/-- **A WALK DRAWS ITS TREE**, in every context and encoding. -/
theorem renders_node (s : Settings) (e : Encoding) :
    ∀ (n : Node) (c : Option (Context o)), (node s e n).Renders c (Sheet.node e n c)
  | .text content, c => by
      rw [node, Sheet.node]
      split
      · exact renders_nothing
      · refine renders_steps ?_
        intro p s hs
        show (p.applyAll (e.events _ ++ [])).Shows _
        rw [List.append_nil]
        exact hs.write e _
  | .element name attributes children, c => by
      rw [node, Sheet.node]
      split
      next fault _ => exact renders_fail fault
      next inner he =>
        rw [he]
        exact renders_element s (keeps_nodes s inner children) (renders_nodes s inner children)

theorem renders_nodes (s : Settings) (e : Encoding) :
    ∀ (ns : List Node) (c : Option (Context o)), (nodes s e ns).Renders c (Sheet.nodes e ns c)
  | [], _ => renders_nothing
  | n :: rest, c => by
      rw [nodes, Sheet.nodes]
      exact renders_followedBy (keeps_node s e n) (renders_node s e n c) (renders_nodes s e rest c)

end

end Walk

/-! ## Compiling and decoding -/

/-- The text that a step sends, and its encoding. -/
def Step.text? : Step → Option (Encoding × String)
  | .command (.text e s) => some (e, s)
  | .command (.line e s) => some (e, s)
  | _ => none

/-- The texts that a receipt sends, filled in, in their order. -/
def Settings.texts {o : Type} [Members o] (s : Settings) (root : Element)
    (c : Option (Context o)) : List (Encoding × String) :=
  match (s.plan root c).1 with
  | .ok parts => parts.filterMap Step.text?
  | .error _ => []

/-- A step is legible if its text is, and so it is without one. -/
theorem Step.legible_of_text? {step : Step}
    (h : ∀ sent, step.text? = some sent → sent.1.Legible sent.2) : step.Legible := by
  cases step with
  | command c =>
      cases c with
      | text e s => exact h (e, s) rfl
      | line e s => exact h (e, s) rfl
      | _ => exact trivial
  | _ => exact trivial

theorem Step.legible_of_texts {parts : List Step}
    (h : ∀ sent ∈ parts.filterMap Step.text?, sent.1.Legible sent.2) :
    ∀ step ∈ parts, step.Legible := by
  intro step hs
  refine Step.legible_of_text? ?_
  intro sent ht
  exact h sent (List.mem_filterMap.mpr ⟨step, hs, ht⟩)

/-- **DECODING A COMPILED RECEIPT DRAWS ITS TREE**.  If a receipt compiles and the
    texts that it sends are legible, what a printer of any width makes of the
    bytes is the text that the tree is drawn as. -/
theorem decode_compile {o : Type} [Members o] {s : Settings}
    {load : String → Except FileFault Bytes} {root : Element} {c : Option (Context o)}
    {bytes : Bytes} {width : Nat} (hw : 1 ≤ width)
    (compiled : (s.compile load root c).1 = .ok bytes)
    (legible : ∀ sent ∈ s.texts root c, sent.1.Legible sent.2) :
    TextPrinter.decode bytes width = .ok (s.render root c width) := by
  obtain ⟨e, he, hplan, hbytes⟩ := Settings.plan_of_compile compiled
  rw [Settings.texts, hplan] at legible
  have hr := Step.reads_allBytes hbytes (Step.legible_of_texts legible)
  have hs : TextPrinter.Shows { lineWidth := width } { lineWidth := width } :=
    ⟨rfl, rfl, rfl, rfl, rfl, rfl⟩
  have hd := Walk.renders_node s e root.toNode c (Step.faultless_of_allBytes hbytes) _ _ hs
  rw [TextPrinter.decode, TextPrinter.ofWidth, if_neg (Nat.ne_of_gt hw), Settings.render, he]
  show Except.ok (TextPrinter.feed { lineWidth := width } bytes).1.finish = _
  rw [hr.feed_eq, TextPrinter.finish, hd.flush.output]
  rfl

/-- A receipt with one style in another, characters of two and three bytes, and
    a symbol whose data would be a command. -/
def wideReceipt : Element :=
  ⟨"receipt", [("encoding", "utf-8")],
    [.element "size" [("width", "2")]
      [.element "align" [("value", "right")] [.element "line" [] [.text "é☕"]]],
    .element "qrcode" [("data", "\x1b@")] []]⟩

/-- The job of that receipt. -/
def wideReceiptBytes : Bytes := [
  0x1D, 0x21, 0x01, 0x1B, 0x61, 0x02, 0xC3, 0xA9, 0xE2, 0x98, 0x95, 0x0A, 0x1B, 0x61, 0x00,
  0x1D, 0x21, 0x00, 0x1D, 0x28, 0x6B, 0x04, 0x00, 0x31, 0x41, 0x32, 0x00, 0x1D, 0x28, 0x6B,
  0x03, 0x00, 0x31, 0x43, 0x04, 0x1D, 0x28, 0x6B, 0x03, 0x00, 0x31, 0x45, 0x31, 0x1D, 0x28,
  0x6B, 0x05, 0x00, 0x31, 0x50, 0x30, 0x1B, 0x40, 0x1D, 0x28, 0x6B, 0x03, 0x00, 0x31, 0x51,
  0x30]

/-- On lines of six characters it is right-aligned, doubled and followed by the
    data of its symbol. -/
theorem decode_wideReceipt :
    1 ≤ 6
      ∧ (({} : Settings).compile (fun _ => .error .notFound) wideReceipt
          (none : Option Context)).1 = .ok wideReceiptBytes
      ∧ (∀ sent ∈ ({} : Settings).texts wideReceipt (none : Option Context),
          sent.1.Legible sent.2)
      ∧ TextPrinter.decode wideReceiptBytes 6 = .ok "  éé☕☕\n[QRCode]\n\x1b@\n" := by
  have compiled : (({} : Settings).compile (fun _ => .error .notFound) wideReceipt
      (none : Option Context)).1 = .ok wideReceiptBytes := rfl
  have legible : ∀ sent ∈ ({} : Settings).texts wideReceipt (none : Option Context),
      sent.1.Legible sent.2 := by
    decide
  exact ⟨by decide, compiled, legible, decode_compile (by decide) compiled legible⟩

end ReceiptPrinter
