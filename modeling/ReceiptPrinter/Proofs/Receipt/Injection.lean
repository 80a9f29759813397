import ReceiptPrinter.Proofs.Preview.Commands
import ReceiptPrinter.Proofs.Receipt.Rendering

/-! # Injection — what the data of a template can change

    Two contexts are ALIKE on a tree if they lead through it the same way: the
    same conditions hold, the loops run over lists of the same lengths, and the
    codes and images are filled in alike.  All that is left to differ is text.

    Text of such data goes to the printer as it is, so it can be a command
    (`injected_command`).  That is the only way: if no text of either receipt
    holds a character that begins a command, the printer is given the same
    commands by both (`commands_of_alike`).

    The proof takes the text out of both jobs.  What stands between is the same
    steps (`Walk.Agrees`), and text hides no command behind it. -/

namespace ReceiptPrinter

open Markup (Node Element directText)

/-! ## Contexts that are alike -/

section

variable {o : Type} [Members o]

/-- Contexts that differ for an element in its text alone, given when they do
    for its content. -/
def Tag.Alike (t : Tag) (content : Option (Context o) → Option (Context o) → Prop)
    (c d : Option (Context o)) : Prop :=
  match t.name with
  | "text" | "line" => True
  | "if" => t.holds c = t.holds d ∧ (t.holds c = true → content c d)
  | "for" =>
    (t.items c).length = (t.items d).length
      ∧ ∀ pair ∈ (t.items c).zip (t.items d), content (t.inner c pair.1) (t.inner d pair.2)
  | "qrcode" | "barcode" => fill c (t.value "data") = fill d (t.value "data")
  | "image" => fill c (t.value "path") = fill d (t.value "path")
  | "initialize" | "feed" | "cut" | "drawer" | "beep" | "spacing" | "margin" | "codepage" => True
  | _ => content c d

mutual

/-- Contexts that differ for a node in its text alone. -/
def Markup.Node.Alike : Node → Option (Context o) → Option (Context o) → Prop
  | .text _ => fun _ _ => True
  | .element name attributes children => Tag.Alike ⟨name, attributes⟩ (Markup.AllAlike children)

/-- Contexts that differ for nodes in their text alone. -/
def Markup.AllAlike : List Node → Option (Context o) → Option (Context o) → Prop
  | [] => fun _ _ => True
  | n :: rest => fun c d => n.Alike c d ∧ Markup.AllAlike rest c d

end

end

/-! ## Jobs without their text -/

namespace Step

/-- The steps that are no text. -/
def frame (parts : List Step) : List Step :=
  parts.filter fun step => step.text?.isNone

theorem frame_append (xs ys : List Step) : frame (xs ++ ys) = frame xs ++ frame ys :=
  List.filter_append xs ys

variable {load : String → Except FileFault Bytes}

/-- The commands in the bytes of a step. -/
def commands (load : String → Except FileFault Bytes) (step : Step) : List ScanStep :=
  match step.bytes load with
  | .ok bytes => Event.commands bytes
  | .error _ => []

/-- The bytes of an inert text begin no command. -/
theorem plain_of_text {step : Step} {e : Encoding} {s : String} (h : step.text? = some (e, s))
    (inert : Text.Inert s) {bytes : Bytes} (sent : step.bytes load = .ok bytes) :
    ∀ b ∈ bytes, Event.isLead b = false := by
  cases step with
  | command c =>
      cases c with
      | text e s =>
          cases h
          cases sent
          exact e.plain_of_inert inert
      | line e s =>
          cases h
          cases sent
          exact List.forall_mem_append.mpr
            ⟨e.plain_of_inert inert, List.forall_mem_singleton.mpr (by decide)⟩
      | _ => cases h
  | _ => cases h

/-- **THE COMMANDS OF A JOB ARE THOSE OF ITS FRAME** if its texts are inert. -/
theorem commands_allBytes {parts : List Step} {bytes : Bytes}
    (sent : allBytes load parts = .ok bytes)
    (inert : ∀ text ∈ parts.filterMap text?, Text.Inert text.2) :
    Event.commands bytes = (frame parts).flatMap (commands load) := by
  induction parts generalizing bytes with
  | nil =>
      rw [← Except.ok.inj sent]
      exact Event.commands_nil
  | cons step rest ih =>
      obtain ⟨first, others, hf, ho, rfl⟩ := allBytes_cons_eq_ok sent
      -- A text is left out on both sides: its bytes hide nothing of what follows.
      cases ht : step.text? with
      | some text =>
          rw [List.filterMap_cons_some ht, List.forall_mem_cons] at inert
          have hr : frame (step :: rest) = frame rest :=
            List.filter_cons_of_neg (by rw [ht]; exact Bool.false_ne_true)
          rw [Event.commands_of_plain (plain_of_text ht inert.1 hf), ih ho inert.2, hr]
      | none =>
          rw [List.filterMap_cons_none ht] at inert
          have hr : frame (step :: rest) = step :: frame rest :=
            List.filter_cons_of_pos (by rw [ht]; rfl)
          have hc : commands load step = Event.commands first := by rw [commands, hf]
          have legible : step.Legible := by
            refine legible_of_text? ?_
            intro sent h
            rw [ht] at h
            cases h
          rw [(reads hf legible).commands_append, ih ho inert, hr, List.flatMap_cons, hc]

end Step

/-! ## Two walks -/

namespace Walk

open Step (frame frame_append)

variable {o : Type}

/-- Two runs of a walk, unless one of them fails, are the same but for their text. -/
def Agrees (w : Walk o) (c d : Option (Context o)) : Prop :=
  Step.Faultless (w.run c).1 → Step.Faultless (w.run d).1 →
    frame (w.run c).1 = frame (w.run d).1

variable {content : Walk o} {c d : Option (Context o)}

theorem agrees_steps {parts : Option (Context o) → List Step}
    (h : frame (parts c) = frame (parts d)) : (steps parts).Agrees c d :=
  fun _ _ => h

theorem agrees_fail (e : Error) : (fail e : Walk o).Agrees c d :=
  fun _ _ => rfl

theorem agrees_followedBy {a b : Walk o} (hk : a.Keeps) (ha : a.Agrees c d) (hb : b.Agrees c d) :
    (a.followedBy b).Agrees c d := by
  intro hc hd
  rw [run_followedBy hk] at hc hd ⊢
  rw [run_followedBy hk]
  rw [Step.faultless_append] at hc hd
  rw [frame_append, frame_append, ha hc.1 hd.1, hb hc.2 hd.2]

theorem agrees_between {on off : Style} (hk : content.Keeps) (h : content.Agrees c d) :
    (between on off content).Agrees c d :=
  agrees_followedBy (keeps_followedBy (keeps_steps _) hk)
    (agrees_followedBy (keeps_steps _) (agrees_steps rfl) h) (agrees_steps rfl)

/-- A walk that needs a context is looked at where both contexts are there. -/
theorem agrees_choose {tag : String} {pick : Context o → Walk o}
    (h : ∀ x y, c = some x → d = some y →
      Step.Faultless ((pick x).run c).1 → Step.Faultless ((pick y).run d).1 →
      frame ((pick x).run c).1 = frame ((pick y).run d).1) :
    (choose tag pick).Agrees c d := by
  intro hc hd
  cases c with
  | none => exact absurd hc (Step.not_faultless_fault (.contextRequired tag) [])
  | some x =>
      cases d with
      | none => exact absurd hd (Step.not_faultless_fault (.contextRequired tag) [])
      | some y => exact h x y rfl rfl hc hd

theorem agrees_withVariable {name : String} {x y : Context o} {item other : ValueOf o}
    (h : content.Agrees (some (x.pushScope.bind name item)) (some (y.pushScope.bind name other)))
    (hx : Step.Faultless ((withVariable name item content).run (some x)).1)
    (hy : Step.Faultless ((withVariable name other content).run (some y)).1) :
    frame ((withVariable name item content).run (some x)).1
      = frame ((withVariable name other content).run (some y)).1 := by
  rw [run_withVariable] at hx hy ⊢
  rw [run_withVariable]
  split at hx
  · exact absurd hx (Step.not_faultless_fault .blankKey [])
  next hn =>
    rw [if_neg hn] at hy ⊢
    rw [if_neg hn]
    exact h hx hy

/-- Loops over two lists of one length, each item in a scope of its own. -/
theorem agrees_forEach {name : String} {x y : Context o} (hk : content.Keeps) :
    ∀ (xs ys : List (ValueOf o)), xs.length = ys.length →
      (∀ pair ∈ xs.zip ys, content.Agrees (some (x.pushScope.bind name pair.1))
        (some (y.pushScope.bind name pair.2))) →
      Step.Faultless ((forEach name content xs).run (some x)).1 →
      Step.Faultless ((forEach name content ys).run (some y)).1 →
      frame ((forEach name content xs).run (some x)).1
        = frame ((forEach name content ys).run (some y)).1
  | [], [], _, _, _, _ => rfl
  | item :: xs, other :: ys, hlen, h, hx, hy => by
      rw [List.zip_cons_cons, List.forall_mem_cons] at h
      rw [forEach, run_followedBy (withVariable_keeps _ _ _ hk)] at hx hy ⊢
      rw [forEach, run_followedBy (withVariable_keeps _ _ _ hk)]
      rw [Step.faultless_append] at hx hy
      rw [frame_append, frame_append, agrees_withVariable h.1 hx.1 hy.1,
        agrees_forEach hk xs ys (Nat.succ.inj hlen) h.2 hx.2 hy.2]

variable [Members o]

theorem agrees_conditional {t : Tag} (hh : t.holds c = t.holds d)
    (h : t.holds c = true → content.Agrees c d) : (conditional t content).Agrees c d := by
  rw [conditional]
  split
  · exact agrees_fail _
  next condition hcond =>
    rw [← Tag.value_of_required hcond]
    refine agrees_choose ?_
    rintro x y rfl rfl
    -- Both contexts make the same choice, and where it is the content they agree.
    rw [← t.holds_some, ← t.holds_some, ← hh]
    split
    next holds => exact h holds
    · exact fun _ _ => rfl

theorem agrees_loop {s : Settings} {t : Tag} (hk : content.Keeps)
    (hlen : (t.items c).length = (t.items d).length)
    (h : ∀ pair ∈ (t.items c).zip (t.items d),
      content.Agrees (t.inner c pair.1) (t.inner d pair.2)) :
    (loop s t content).Agrees c d := by
  rw [loop]
  split
  · exact agrees_fail _
  next name hname =>
    split
    · exact agrees_fail _
    next source hsource =>
      rw [← Tag.value_of_required hname, ← Tag.value_of_required hsource]
      refine agrees_choose ?_
      rintro x y rfl rfl hx hy
      have ex := run_overItems hx
      have ey := run_overItems hy
      rw [ex] at hx ⊢
      rw [ey] at hy ⊢
      exact agrees_forEach hk _ _ hlen h hx hy

/-! ### Elements -/

variable {t : Tag} {relate : Option (Context o) → Option (Context o) → Prop}

/-- Contexts are alike for an element with a style when they are for its content. -/
theorem relate_of_styles {r : Except Error (Style × Style)} (h : t.styles? = some r)
    (alike : t.Alike relate c d) : relate c d := by
  cases t, h using Tag.styles_cases with
  | _ => exact alike

/-- So they are for an element that stands for its content. -/
theorem relate_of_other (h : t.name ∉ Tag.elementNames) (alike : t.Alike relate c d) :
    relate c d := by
  rw [Tag.Alike.eq_def] at alike
  split at alike
  case h_16 => exact alike
  all_goals
    next hn =>
      rw [hn] at h
      exact absurd (by decide) h

/-- A code or an image is sent alike if it is filled in alike. -/
theorem parts_of_alike {locate : String → String}
    {parts : (String → String) → Except Error (List Step)}
    (h : t.filledSteps? locate = some parts) (alike : t.Alike relate c d) :
    parts (fill c) = parts (fill d) := by
  cases t, h using Tag.filledSteps_cases with
  | _ attributes h =>
      change fill c _ = fill d _ at alike
      cases h
      dsimp only
      simp only [Tag.symbolCommands, Tag.barcodeCommands, Tag.imageStep, alike]

theorem agrees_element (s : Settings) (e : Encoding) (text : String) (hk : content.Keeps)
    (h : ∀ c d, relate c d → content.Agrees c d) (alike : t.Alike relate c d) :
    (element s e t text content).Agrees c d := by
  refine element_cases (motive := fun w => w.Agrees c d) ?plain ?line ?chosen ?repeated ?styled
    ?unstyled ?fixed ?filled ?transparent
  case plain => exact fun _ => agrees_steps rfl
  case line => exact fun _ => agrees_steps rfl
  case chosen =>
    intro k
    rw [← Tag.mk_of_name k] at alike ⊢
    exact agrees_conditional alike.1 fun holds => h c d (alike.2 holds)
  case repeated =>
    intro k
    rw [← Tag.mk_of_name k] at alike ⊢
    exact agrees_loop hk alike.1 fun pair hp => h _ _ (alike.2 pair hp)
  case styled => exact fun on off k => agrees_between hk (h c d (relate_of_styles k alike))
  case unstyled => exact fun fault _ => agrees_fail fault
  case fixed => exact fun parts _ => agrees_steps rfl
  case filled =>
    intro parts k
    exact agrees_steps (congrArg (fun r => frame (ofSteps r)) (parts_of_alike k alike))
  case transparent =>
    intro hname
    exact h c d (relate_of_other hname alike)

/-! ### Trees -/

mutual

/-- **ALIKE CONTEXTS LEAVE THE SAME FRAME**, over every tree. -/
theorem agrees_node (s : Settings) (e : Encoding) :
    ∀ (n : Node) (c d : Option (Context o)), n.Alike c d → (node s e n).Agrees c d
  | .text content, c, d, _ => by
      rw [node]
      split
      · exact fun _ _ => rfl
      · exact agrees_steps rfl
  | .element name attributes children, c, d, alike => by
      rw [Markup.Node.Alike] at alike
      rw [node]
      split
      next fault _ => exact agrees_fail fault
      next inner _ =>
        exact agrees_element s inner _ (keeps_nodes s inner children)
          (agrees_nodes s inner children) alike

theorem agrees_nodes (s : Settings) (e : Encoding) :
    ∀ (ns : List Node) (c d : Option (Context o)), Markup.AllAlike ns c d →
      (nodes s e ns).Agrees c d
  | [], _, _, _ => fun _ _ => rfl
  | n :: rest, c, d, alike => by
      rw [Markup.AllAlike] at alike
      rw [nodes]
      exact agrees_followedBy (keeps_node s e n) (agrees_node s e n c d alike.1)
        (agrees_nodes s e rest c d alike.2)

end

end Walk

/-! ## A name in a receipt -/

/-- A receipt with a name to be filled in. -/
def nameReceipt : Element :=
  ⟨"receipt", [], [.element "text" [] [.text "${N}"], .element "cut" [] []]⟩

/-- The context of a name. -/
def naming (name : String) : Context :=
  Context.empty.bind "N" (.text name)

/-- The name stands where its token stood, whatever it holds. -/
theorem substitute_naming (name : String) : (naming name).substitute "${N}" = name := by
  have h : (naming name).substituteChars ['$', '\x7b', 'N', '\x7d'] = name.toList := by
    rw [Context.substituteChars]
    split
    next first body after hs =>
      cases hs
      rw [Context.substituteChars, List.append_nil]
      rfl
    next hs => cases hs
    next hs => cases hs
  show String.ofList ((naming name).substituteChars ['$', '\x7b', 'N', '\x7d']) = name
  rw [h, String.ofList_toList]

theorem plan_nameReceipt (name : String) :
    (({} : Settings).plan nameReceipt (some (naming name))).1
      = .ok [.command (.text .ascii name), .command (.control (.cut .part))] := by
  have h : (({} : Settings).plan nameReceipt (some (naming name))).1
      = .ok [.command (.text .ascii ((naming name).substitute "${N}")),
        .command (.control (.cut .part))] := rfl
  rw [h, substitute_naming]

theorem texts_nameReceipt (name : String) :
    ({} : Settings).texts nameReceipt (some (naming name)) = [(.ascii, name)] := by
  rw [Settings.texts, plan_nameReceipt]
  rfl

theorem compile_nameReceipt (load : String → Except FileFault Bytes) (name : String) :
    (({} : Settings).compile load nameReceipt (some (naming name))).1
      = .ok (Encoding.ascii.encode name ++ [0x1D, 0x56, 0x01]) := by
  show (({} : Settings).plan nameReceipt (some (naming name))).1.bind (Step.allBytes load) = _
  rw [plan_nameReceipt]
  rfl

theorem alike_nameReceipt (name other : String) :
    nameReceipt.toNode.Alike (some (naming name)) (some (naming other)) := by
  simp [nameReceipt, Element.toNode, Markup.Node.Alike, Markup.AllAlike, Tag.Alike]

/-! ## Compiling in two contexts -/

/-- **DATA CHANGES TEXT AND NOTHING ELSE**, as long as no text sent holds `ESC`,
    `GS` or `DLE`.  The jobs of two contexts that are alike then hold the same
    commands with the same parameters in the same order. -/
theorem commands_of_alike {o : Type} [Members o] {s : Settings}
    {load : String → Except FileFault Bytes} {root : Element} {c d : Option (Context o)}
    {bytes other : Bytes}
    (hc : (s.compile load root c).1 = .ok bytes) (hd : (s.compile load root d).1 = .ok other)
    (alike : root.toNode.Alike c d)
    (inert : ∀ text ∈ s.texts root c ++ s.texts root d, Text.Inert text.2) :
    Event.commands bytes = Event.commands other := by
  obtain ⟨e, he, hplan, hbytes⟩ := Settings.plan_of_compile hc
  obtain ⟨e', he', hplan', hbytes'⟩ := Settings.plan_of_compile hd
  obtain rfl : e = e' := Except.ok.inj (he.symm.trans he')
  rw [Settings.texts, Settings.texts, hplan, hplan', List.forall_mem_append] at inert
  rw [Step.commands_allBytes hbytes inert.1, Step.commands_allBytes hbytes' inert.2,
    Walk.agrees_node s e root.toNode c d alike (Step.faultless_of_allBytes hbytes)
      (Step.faultless_of_allBytes hbytes')]

/-- Two names, one of them outside ASCII, leave the cut where it was. -/
theorem commands_of_two_names :
    (({} : Settings).compile (fun _ => .error .notFound) nameReceipt (some (naming "Ann"))).1
        = .ok [0x41, 0x6E, 0x6E, 0x1D, 0x56, 0x01]
      ∧ (({} : Settings).compile (fun _ => .error .notFound) nameReceipt (some (naming "Zoë"))).1
        = .ok [0x5A, 0x6F, 0x3F, 0x1D, 0x56, 0x01]
      ∧ nameReceipt.toNode.Alike (some (naming "Ann")) (some (naming "Zoë"))
      ∧ (∀ text ∈ ({} : Settings).texts nameReceipt (some (naming "Ann"))
          ++ ({} : Settings).texts nameReceipt (some (naming "Zoë")), Text.Inert text.2)
      ∧ Event.commands [0x41, 0x6E, 0x6E, 0x1D, 0x56, 0x01]
        = Event.commands [0x5A, 0x6F, 0x3F, 0x1D, 0x56, 0x01] := by
  have hc := compile_nameReceipt (fun _ => .error .notFound) "Ann"
  have hd := compile_nameReceipt (fun _ => .error .notFound) "Zoë"
  have inert : ∀ text ∈ ({} : Settings).texts nameReceipt (some (naming "Ann"))
      ++ ({} : Settings).texts nameReceipt (some (naming "Zoë")), Text.Inert text.2 := by
    rw [texts_nameReceipt, texts_nameReceipt]
    decide
  have alike := alike_nameReceipt "Ann" "Zoë"
  exact ⟨hc, hd, alike, inert, commands_of_alike hc hd alike inert⟩

/-- **A NAME CAN BE A COMMAND**: without the condition on the texts the theorem
    fails, since the characters of ASCII are sent as they are. -/
theorem injected_command :
    ¬ ∀ (s : Settings) (load : String → Except FileFault Bytes) (root : Element)
        (c d : Option Context) (bytes other : Bytes),
      (s.compile load root c).1 = .ok bytes → (s.compile load root d).1 = .ok other →
        root.toNode.Alike c d → Event.commands bytes = Event.commands other := by
  intro h
  have hname := h {} (fun _ => .error .notFound) nameReceipt (some (naming "\x1b@"))
    (some (naming "A")) _ _ (compile_nameReceipt _ _) (compile_nameReceipt _ _)
    (alike_nameReceipt _ _)
  -- One of the two jobs begins with a command that the other has not.
  have hreset (after : Bytes) : Event.commands (Encoding.ascii.encode "\x1b@" ++ after)
      = ⟨[0x1B, 0x40], .piece 2 .reset⟩ :: Event.commands after := by
    show (Event.steps (0x1B :: ([0x40] ++ after))).filter _ = _
    rw [Event.steps_piece fun _ => rfl]
    rfl
  have hplain (after : Bytes) :
      Event.commands (Encoding.ascii.encode "A" ++ after) = Event.commands after :=
    Event.commands_of_plain (Encoding.ascii.plain_of_inert (by decide)) after
  rw [hreset, hplain] at hname
  exact List.cons_ne_self _ _ hname

end ReceiptPrinter
