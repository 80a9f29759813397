import ReceiptPrinter.Proofs.Receipt.Sheet
import ReceiptPrinter.Proofs.Receipt.Walks
import ReceiptPrinter.Proofs.Template.Beginnings

/-! # Expansion — a receipt with its template carried out

    A template can be carried out on the tree, before anything is sent: conditions
    are decided, loops are written out and tokens are filled in
    (`Markup.Element.expand`).  What is left needs no context.

    The expanded receipt, without a context, compiles to what the receipt compiles
    to under its context (`Settings.compile_expand`).  An expansion opens no
    scopes: it binds the variable of a loop on top of the bindings around it and
    forgets it after the item.  That comes to the same because a lookup sees
    nothing of a context but its bindings (`Context.substitute_congr`). -/

namespace ReceiptPrinter

open Markup (Node Element Attributes directText)

/-! ## Carrying out a template -/

/-- An element that stands for its content, since its name is not in the vocabulary,
    in the encoding that the tag names. -/
def Tag.wrapper (t : Tag) (children : List Node) : Element :=
  ⟨"section", (t.attributes.get? "encoding").toList.map ("encoding", ·), children⟩

section

variable {o : Type} [Members o]

namespace Markup

/-- Attributes with the values of one name filled in. -/
def Attributes.fillIn (attributes : Attributes) (c : Context o) (name : String) : Attributes :=
  attributes.map fun (key, value) => (key, if key = name then c.substitute value else value)

/-- A child of an element that stands for its content: text that is not all blank
    becomes an element that holds it filled in. -/
def Node.filled (c : Context o) : Node → Node
  | .text content =>
    if Text.allBlank content then .text content
    else .element "text" [] [.text (c.substitute content)]
  | .element name attributes children => .element name attributes children

end Markup

namespace Tag

/-- An element with its template carried out, given its children and what has
    become of the elements among them under each context.  Text is filled in where
    it would be sent and kept where nobody looks at it. -/
def expand (t : Tag) (children : List Node) (content : Context o → List Node) (c : Context o) :
    Element :=
  match t.name with
  | "text" | "line" => ⟨t.name, t.attributes, [.text (c.substitute (directText children))]⟩
  | "if" => t.wrapper (if t.holds (some c) then (content c).map (Node.filled c) else [])
  | "for" =>
    t.wrapper ((t.items (some c)).flatMap fun item =>
      let inner := c.bind (t.value "var") item
      (content inner).map (Node.filled inner))
  | "qrcode" | "barcode" => ⟨t.name, t.attributes.fillIn c "data", content c⟩
  | "image" => ⟨t.name, t.attributes.fillIn c "path", content c⟩
  | _ =>
    ⟨t.name, t.attributes,
      if t.name ∈ commandNames then content c else (content c).map (Node.filled c)⟩

end Tag

namespace Markup

mutual

/-- A child with the templates of its elements carried out. -/
def Node.expand : Node → Context o → Node
  | .text content => fun _ => .text content
  | .element name attributes children => fun c =>
    (Tag.expand ⟨name, attributes⟩ children (expandAll children) c).toNode

/-- Children with the templates of their elements carried out. -/
def expandAll : List Node → Context o → List Node
  | [] => fun _ => []
  | child :: rest => fun c => child.expand c :: expandAll rest c

end

/-- A receipt with its template carried out. -/
def Element.expand (root : Element) (c : Context o) : Element :=
  Tag.expand ⟨root.name, root.attributes⟩ root.children (expandAll root.children) c

end Markup

end

/-! ## Lookups and bindings -/

namespace Context

variable {o : Type} [Members o] {c x : Context o} (same : c.bindings = x.bindings)
include same

theorem renderToken_congr (body : List Char) : c.renderToken body = x.renderToken body := by
  simp only [renderToken, get?_congr same]

theorem substituteChars_congr (cs : List Char) : c.substituteChars cs = x.substituteChars cs := by
  fun_induction c.substituteChars cs with
  | case1 => rw [substituteChars]
  | case2 rest first body after split _ ih =>
      -- Both sides look for the end of the same token.
      rw [substituteChars]
      split
      next h =>
        cases split.symm.trans h
        rw [ih, renderToken_congr same]
      next h => cases split.symm.trans h
      next h => cases split.symm.trans h
  | case3 rest after split ih =>
      rw [substituteChars]
      split
      next h => cases split.symm.trans h
      next h =>
        cases split.symm.trans h
        rw [ih]
      next h => cases split.symm.trans h
  | case4 rest split =>
      rw [substituteChars]
      split
      next h => cases split.symm.trans h
      next h => cases split.symm.trans h
      next => rfl
  | case5 other rest plain ih => rw [substituteChars.eq_3 _ _ _ plain, ih]

/-- **TOKENS ARE FILLED IN FROM THE BINDINGS ALONE.** -/
theorem substitute_congr (text : String) : c.substitute text = x.substitute text := by
  rw [substitute, substitute, substituteChars_congr same]

end Context

/-! ## What is left of an element -/

/-- Filling in one attribute leaves the others. -/
theorem Markup.Attributes.get?_fillIn {o : Type} [Members o] (attributes : Attributes)
    (c : Context o) (name key : String) :
    (attributes.fillIn c name).get? key
      = if key = name then (attributes.get? key).map c.substitute else attributes.get? key := by
  induction attributes with
  | nil => exact (ite_self none).symm
  | cons entry rest ih =>
      obtain ⟨first, value⟩ := entry
      simp only [get?, fillIn, List.map_cons] at ih ⊢
      rw [List.lookup_cons, List.lookup_cons]
      cases hk : key == first with
      | false => exact ih
      | true =>
          rw [← eq_of_beq hk]
          exact apply_ite some _ _ _

theorem Markup.directText_text (text : String) : directText [.text text] = text :=
  String.empty_append

namespace Tag

theorem nonEmpty?_wrapper (t : Tag) (children : List Node) :
    (t.wrapper children).attributes.nonEmpty? "encoding" = t.attributes.nonEmpty? "encoding" := by
  rw [wrapper, Attributes.nonEmpty?, Attributes.nonEmpty?]
  cases t.attributes.get? "encoding" <;> rfl

/-- An element with a style is no command. -/
theorem not_command_of_styles {t : Tag} {r : Except Error (Style × Style)}
    (h : t.styles? = some r) : t.name ∉ commandNames := by
  cases t, h using styles_cases with
  | _ =>
      dsimp only
      decide

variable {o : Type} [Members o] (t : Tag) (c : Context o) {name key : String}

theorem holds_congr {c x : Context o} (same : c.bindings = x.bindings) :
    t.holds (some c) = t.holds (some x) := by
  rw [holds_some, holds_some, Context.get?_congr same]

theorem items_congr {c x : Context o} (same : c.bindings = x.bindings) :
    t.items (some c) = t.items (some x) := by
  simp only [items, Option.bind_some, Context.get?_congr same]

/-- The tag with one of its attributes filled in. -/
def fillIn (name : String) : Tag :=
  ⟨t.name, t.attributes.fillIn c name⟩

theorem value_fillIn : (t.fillIn c name).value name = c.substitute (t.value name) := by
  rw [fillIn, value, Attributes.get?_fillIn, if_pos rfl, value]
  cases t.attributes.get? name with
  | none => exact c.substitute_empty.symm
  | some v => rfl

theorem nonEmpty?_fillIn (h : key ≠ name) :
    (t.fillIn c name).attributes.nonEmpty? key = t.attributes.nonEmpty? key := by
  rw [fillIn, Attributes.nonEmpty?, Attributes.get?_fillIn, if_neg h, Attributes.nonEmpty?]

theorem byteOr_fillIn (h : key ≠ name) (default : UInt8) :
    (t.fillIn c name).byteOr key default = t.byteOr key default := by
  simp only [byteOr, byte?, number?, t.nonEmpty?_fillIn c h]
  rfl

theorem variant?_fillIn {α : Type} (h : key ≠ name) (ofName? : String → Option α) :
    (t.fillIn c name).variant? key ofName? = t.variant? key ofName? := by
  rw [variant?, fillIn, Attributes.get?_fillIn, if_neg h, variant?]

theorem symbolCommands_fillIn :
    (t.fillIn c "data").symbolCommands (fill (none : Option (Context o)))
      = t.symbolCommands (fill (some c)) := by
  rw [symbolCommands, symbolCommands, value_fillIn,
    t.byteOr_fillIn c (show "size" ≠ "data" by decide),
    t.variant?_fillIn c (show "errorLevel" ≠ "data" by decide)]
  rfl

theorem barcodeCommands_fillIn :
    (t.fillIn c "data").barcodeCommands (fill (none : Option (Context o)))
      = t.barcodeCommands (fill (some c)) := by
  rw [barcodeCommands, barcodeCommands, value_fillIn,
    t.byteOr_fillIn c (show "height" ≠ "data" by decide),
    t.byteOr_fillIn c (show "width" ≠ "data" by decide),
    t.variant?_fillIn c (show "type" ≠ "data" by decide),
    t.nonEmpty?_fillIn c (show "hri" ≠ "data" by decide)]
  rfl

theorem imageStep_fillIn (locate : String → String) :
    (t.fillIn c "path").imageStep (fill (none : Option (Context o))) locate
      = t.imageStep (fill (some c)) locate := by
  rw [imageStep, imageStep, value_fillIn, t.byteOr_fillIn c (show "fn" ≠ "path" by decide)]
  rfl

end Tag

/-! ## Walks without a context -/

namespace Walk

variable {o : Type}

/-- A walk that does without a context what another does under one, unless that
    one fails. -/
def Replaces (w v : Walk o) (x : Context o) : Prop :=
  Step.Faultless (v.run (some x)).1 → (w.run none).1 = (v.run (some x)).1

variable {a b v w : Walk o} {s : Settings} {e : Encoding} {t : Tag} {c x : Context o}

theorem replaces_fail (error : Error) : w.Replaces (fail error) x :=
  fun sent => absurd sent (Step.not_faultless_fault error [])

theorem replaces_steps {parts others : Option (Context o) → List Step}
    (h : parts none = others (some x)) : (steps parts).Replaces (steps others) x :=
  fun _ => h

theorem replaces_followedBy (ka : a.Keeps) (kv : v.Keeps) (ha : a.Replaces v x)
    (hb : b.Replaces w x) : (a.followedBy b).Replaces (v.followedBy w) x := by
  intro sent
  rw [run_followedBy kv] at sent ⊢
  rw [Step.faultless_append] at sent
  rw [run_followedBy ka, ha sent.1, hb sent.2]

theorem replaces_between (on off : Style) (kw : w.Keeps) (kv : v.Keeps) (h : w.Replaces v x) :
    (between on off w).Replaces (between on off v) x :=
  replaces_followedBy (keeps_followedBy (keeps_steps _) kw) (keeps_followedBy (keeps_steps _) kv)
    (replaces_followedBy (keeps_steps _) (keeps_steps _) (replaces_steps rfl) h)
    (replaces_steps rfl)

/-! ### Conditions and loops -/

theorem replaces_choose {tag : String} {pick : Context o → Walk o} (h : w.Replaces (pick x) x) :
    w.Replaces (choose tag pick) x :=
  h

variable [Members o]

/-- The content of an element, or nothing, is decided by its condition. -/
theorem replaces_conditional {chosen : List Node} (h : (nodes s e chosen).Replaces v x) :
    (nodes s e (if t.holds (some x) then chosen else [])).Replaces (conditional t v) x := by
  rw [conditional]
  cases hcond : t.required "condition" with
  | error fault => exact replaces_fail fault
  | ok condition =>
      rw [← Tag.value_of_required hcond]
      refine replaces_choose ?_
      rw [← t.holds_some]
      split
      · exact h
      · exact replaces_steps rfl

/-- The items of a loop, written out one after the other. -/
theorem replaces_forEach {name : String} {block : ValueOf o → List Node} (kv : v.Keeps)
    (h : ∀ item, (nodes s e (block item)).Replaces v (x.pushScope.bind name item))
    (items : List (ValueOf o)) :
    (nodes s e (items.flatMap block)).Replaces (forEach name v items) x := by
  induction items with
  | nil => exact fun _ => rfl
  | cons item rest ih =>
      intro sent
      rw [forEach, run_followedBy (withVariable_keeps name item v kv), run_withVariable] at sent ⊢
      rw [Step.faultless_append] at sent
      rw [List.flatMap_cons, run_nodes_append, ih sent.2]
      split at sent
      · exact absurd sent.1 (Step.not_faultless_fault .blankKey [])
      next hname => rw [if_neg hname, h item sent.1]

theorem replaces_loop {block : ValueOf o → List Node} (kv : v.Keeps)
    (h : ∀ item, (nodes s e (block item)).Replaces v (x.pushScope.bind (t.value "var") item)) :
    (nodes s e ((t.items (some x)).flatMap block)).Replaces (loop s t v) x := by
  rw [loop]
  cases hname : t.required "var" with
  | error fault => exact replaces_fail fault
  | ok name =>
      cases hsource : t.required "in" with
      | error fault => exact replaces_fail fault
      | ok source =>
          rw [← Tag.value_of_required hname, ← Tag.value_of_required hsource]
          refine replaces_choose ?_
          intro sent
          have written := run_overItems sent
          rw [written] at sent ⊢
          exact replaces_forEach kv h (t.items (some x)) sent

/-! ### Elements -/

/-- An element that looks at no context sends its content between the same
    commands. -/
theorem replaces_static (text other : String) (htext : t.name ≠ "text") (hline : t.name ≠ "line")
    (hif : t.name ≠ "if") (hfor : t.name ≠ "for") (hqrcode : t.name ≠ "qrcode")
    (hbarcode : t.name ≠ "barcode") (himage : t.name ≠ "image") (kw : w.Keeps) (kv : v.Keeps)
    (h : t.name ∉ Tag.commandNames → w.Replaces v x) :
    (element s e t text w).Replaces (element s e t other v) x := by
  rw [element_eq_ofForm, element_eq_ofForm, Tag.form_of_other htext hline hif hfor]
  cases hstyles : t.styles? with
  | some styles =>
      cases styles with
      | error fault => exact replaces_fail fault
      | ok styles => exact replaces_between _ _ kw kv (h (Tag.not_command_of_styles hstyles))
  | none =>
      cases hcommands : t.commands? with
      | some parts => exact replaces_steps rfl
      | none =>
          cases hfilled : t.filledSteps? s.locate with
          | some parts =>
              cases t, hfilled using Tag.filledSteps_cases with
              | qrcode => exact absurd rfl hqrcode
              | barcode => exact absurd rfl hbarcode
              | image => exact absurd rfl himage
          | none => exact h fun hm => Tag.commands?_ne_none hm hcommands

/-- **AN ELEMENT WITH ITS TEMPLATE CARRIED OUT** does without a context what it did
    under one, if its content does. -/
theorem replaces_element {children : List Node} {content : Context o → List Node}
    (same : c.bindings = x.bindings)
    (h : ∀ c x, c.bindings = x.bindings →
      (nodes s e ((content c).map (Node.filled c))).Replaces (nodes s e children) x)
    {left : Element} (expanded : left = t.expand children content c) :
    (element s e ⟨left.name, left.attributes⟩ (directText left.children)
        (nodes s e left.children)).Replaces
      (element s e t (directText children) (nodes s e children)) x := by
  have tokens : fill (some c) = fill (some x) := funext (Context.substitute_congr same)
  obtain ⟨name, attributes⟩ := t
  rw [Tag.expand.eq_def] at expanded
  split at expanded <;> subst expanded
  case h_1 htext =>
    cases htext
    refine replaces_steps ?_
    rw [Markup.directText_text, ← tokens]
    rfl
  case h_2 hline =>
    cases hline
    refine replaces_steps ?_
    rw [Markup.directText_text, ← tokens]
    rfl
  case h_3 hif =>
    cases hif
    rw [Tag.holds_congr _ same]
    exact replaces_conditional (h c x same)
  case h_4 hfor =>
    cases hfor
    rw [Tag.items_congr _ same]
    refine replaces_loop (keeps_nodes s e children) ?_
    intro item
    refine h _ _ ?_
    rw [Context.bind, same]
    rfl
  case h_5 hqrcode =>
    cases hqrcode
    refine replaces_steps (congrArg ofSteps ?_)
    rw [← tokens]
    exact congrArg (·.map (·.map Step.command)) (Tag.symbolCommands_fillIn ⟨"qrcode", attributes⟩ c)
  case h_6 hbarcode =>
    cases hbarcode
    refine replaces_steps (congrArg ofSteps ?_)
    rw [← tokens]
    exact congrArg (·.map (·.map Step.command))
      (Tag.barcodeCommands_fillIn ⟨"barcode", attributes⟩ c)
  case h_7 himage =>
    cases himage
    refine replaces_steps (congrArg ofSteps ?_)
    rw [← tokens]
    exact congrArg (·.map ([·])) (Tag.imageStep_fillIn ⟨"image", attributes⟩ c s.locate)
  case h_8 htext hline hif hfor hqrcode hbarcode himage =>
    refine replaces_static _ _ htext hline hif hfor hqrcode hbarcode himage
      (keeps_nodes s e _) (keeps_nodes s e _) ?_
    intro hcommands
    dsimp only at hcommands ⊢
    rw [if_neg hcommands]
    exact h c x same

/-- What has become of an element names the same encoding. -/
theorem encodingOf_expand (e : Encoding) (t : Tag) (children : List Node)
    (content : Context o → List Node) (c : Context o) :
    encodingOf e (t.expand children content c).attributes = encodingOf e t.attributes := by
  have same : (t.expand children content c).attributes.nonEmpty? "encoding"
      = t.attributes.nonEmpty? "encoding" := by
    rw [Tag.expand.eq_def]
    split
    case h_3 => exact t.nonEmpty?_wrapper _
    case h_4 => exact t.nonEmpty?_wrapper _
    case h_5 => exact t.nonEmpty?_fillIn c (show "encoding" ≠ "data" by decide)
    case h_6 => exact t.nonEmpty?_fillIn c (show "encoding" ≠ "data" by decide)
    case h_7 => exact t.nonEmpty?_fillIn c (show "encoding" ≠ "path" by decide)
    all_goals rfl
  rw [encodingOf, encodingOf, same]

/-! ### Trees -/

mutual

/-- **A TREE WITH ITS TEMPLATE CARRIED OUT**, by induction on the tree: without a
    context its walk is that of the tree under every context with the same
    bindings. -/
theorem replaces_node (s : Settings) (e : Encoding) :
    ∀ (n : Node) (c x : Context o), c.bindings = x.bindings →
      (node s e ((n.expand c).filled c)).Replaces (node s e n) x
  | .text content, c, x, same => by
      rw [Node.expand, Node.filled]
      split
      next hblank =>
        rw [node, if_pos hblank]
        exact replaces_steps rfl
      next hblank =>
        rw [node, node, if_neg hblank]
        refine replaces_steps ?_
        rw [Markup.directText_text, Context.substitute_congr same]
        rfl
  | .element name attributes children, c, x, same => by
      rw [Node.expand]
      show (node s e (Tag.expand ⟨name, attributes⟩ children _ c).toNode).Replaces _ x
      rw [Element.toNode, node, node, encodingOf_expand]
      dsimp only
      split
      · exact replaces_fail _
      next inner _ =>
        exact replaces_element same (replaces_nodes s inner children) rfl

theorem replaces_nodes (s : Settings) (e : Encoding) :
    ∀ (ns : List Node) (c x : Context o), c.bindings = x.bindings →
      (nodes s e ((Markup.expandAll ns c).map (Node.filled c))).Replaces (nodes s e ns) x
  | [], _, _, _ => fun _ => rfl
  | n :: rest, c, x, same => by
      rw [Markup.expandAll, List.map_cons, nodes, nodes]
      exact replaces_followedBy (keeps_node s e _) (keeps_node s e n) (replaces_node s e n c x same)
        (replaces_nodes s e rest c x same)

end

end Walk

/-! ## Compiling -/

/-- Without a check of its markup a receipt compiles to the bytes of its steps. -/
theorem Settings.compile_unchecked {o : Type} [Members o] {s : Settings} {e : Encoding}
    (unchecked : s.validate = false) (he : Encoding.ofName s.encoding = .ok e)
    (load : String → Except FileFault Bytes) (root : Element) (c : Option (Context o)) :
    (s.compile load root c).1 = Step.allBytes load ((Walk.node s e root.toNode).run c).1 := by
  rw [compile, plan, unchecked, he]
  rfl

/-- **A TEMPLATE CAN BE CARRIED OUT ON THE TREE.**  If a receipt compiles under a
    context, then the receipt with its template carried out under that context
    compiles without one, to the same bytes. -/
theorem Settings.compile_expand {o : Type} [Members o] {s : Settings}
    {load : String → Except FileFault Bytes} {root : Element} {c : Context o} {bytes : Bytes}
    (unchecked : s.validate = false) (compiled : (s.compile load root (some c)).1 = .ok bytes) :
    (s.compile load (root.expand c) (none : Option (Context o))).1 = .ok bytes := by
  obtain ⟨e, he, -, sent⟩ := Settings.plan_of_compile compiled
  have replaced := Walk.replaces_node s e root.toNode c c rfl (Step.faultless_of_allBytes sent)
  rw [compile_unchecked unchecked he, ← sent, ← replaced]
  rfl

/-- A receipt with each item that is something in bold print. -/
def itemReceipt : Element :=
  ⟨"receipt", [], [
    .element "for" [("var", "i"), ("in", "Items")]
      [.element "if" [("condition", "i")] [.element "bold" [] [.text "${i}"]]],
    .element "cut" [] []]⟩

/-- Three items, the second of them an empty text. -/
def itemContext : Context :=
  Context.empty.bind "Items" (.list [.text "A", .text "", .text "B"])

/-- The settings without a check of the markup. -/
def lenient : Settings := { validate := false }

/-- What the receipt is under that context: two items in bold print, and a cut. -/
def itemJob : Bytes :=
  [0x1B, 0x45, 0x01, 0x41, 0x1B, 0x45, 0x00, 0x1B, 0x45, 0x01, 0x42, 0x1B, 0x45, 0x00,
    0x1D, 0x56, 0x01]

/-- With the loop written out and the conditions decided it is no less. -/
theorem compile_expand_items :
    lenient.validate = false
      ∧ (lenient.compile (fun _ => .error .notFound) itemReceipt (some itemContext)).1
        = .ok itemJob
      ∧ (lenient.compile (fun _ => .error .notFound) (itemReceipt.expand itemContext)
          (none : Option Context)).1 = .ok itemJob := by
  have compiled : (lenient.compile (fun _ => .error .notFound) itemReceipt
      (some itemContext)).1 = .ok itemJob := ok_of_toOption (by decide +kernel)
  exact ⟨rfl, compiled, Settings.compile_expand rfl compiled⟩

end ReceiptPrinter
