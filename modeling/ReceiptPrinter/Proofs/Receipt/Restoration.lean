import ReceiptPrinter.Proofs.Command.Aspects
import ReceiptPrinter.Proofs.Receipt.Rendering

/-! # Restoration — no style outlives its element

    An element with a style sends a command in front of its content and another
    one behind it, which resets what the first one sets.  So a style in another
    one of its kind ends both, and a receipt cannot leave more of a style behind
    than there was: after every walk each aspect is as it was or as it is at
    first (`Walk.restores_node`). -/

namespace ReceiptPrinter

open Markup (Node)
open TextStyle (Aspect)

/-! ## Elements -/

/-- The aspects of a style that an element controls. -/
def aspects : String → List Aspect
  | "bold" => [.bold]
  | "underline" => [.underline]
  | "invert" => [.invert]
  | "size" => [.width, .height]
  | "align" => [.side]
  | _ => []

/-- The styles of an element set the aspects that it controls, and the second one
    sets them to what there is at first. -/
theorem aspects_of_styles {t : Tag} {on off : Style} (h : t.styles? = some (.ok (on, off))) :
    on.aspects = aspects t.name ∧ off.aspects = aspects t.name ∧ off.isOff = true := by
  cases t, h using Tag.styles_cases with
  | underline attributes h =>
      obtain ⟨mode, -, hm⟩ := bind_eq_ok (Option.some.inj h)
      cases hm
      exact ⟨rfl, rfl, rfl⟩
  | size attributes h =>
      obtain ⟨width, hw, hm⟩ := bind_eq_ok (Option.some.inj h)
      obtain ⟨height, -, hm⟩ := bind_eq_ok hm
      cases hm
      exact ⟨rfl, rfl, rfl⟩
  | bold attributes h | invert attributes h | rotate attributes h | align attributes h
  | font attributes h =>
      cases h
      exact ⟨rfl, rfl, rfl⟩

/-! ## Steps -/

/-- The style after steps. -/
def TextStyle.afterSteps (style : TextStyle) (parts : List Step) : TextStyle :=
  style.afterAll (parts.flatMap Step.events)

theorem TextStyle.afterSteps_append (style : TextStyle) (xs ys : List Step) :
    style.afterSteps (xs ++ ys) = (style.afterSteps xs).afterSteps ys := by
  rw [afterSteps, List.flatMap_append, afterAll_append]
  rfl

/-- Text changes no style. -/
theorem Step.afterAll_text {step : Step} (ht : step.text?.isSome = true) (style : TextStyle) :
    style.afterAll step.events = style := by
  have characters : ∀ (e : Encoding) (text : String), style.afterAll (e.events text) = style := by
    intro e text
    rw [Encoding.events]
    induction text.toList with
    | nil => rfl
    | cons c rest ih =>
        have hc : style.after (.ofChar (e.shown c)) = style := by
          rw [Event.ofChar]
          repeat' split
          all_goals rfl
        rw [List.map_cons]
        show (style.after _).afterAll _ = style
        rw [hc, ih]
  cases step with
  | command c =>
      cases c with
      | text e text => exact characters e text
      | line e text =>
          show style.afterAll (e.events text ++ [.lineEnd]) = style
          rw [TextStyle.afterAll_append, characters]
          rfl
      | _ => cases ht
  | _ => cases ht

/-! ## Walks -/

namespace Walk

variable {o : Type}

/-- A walk that leaves no more of any style than there was. -/
def Restores (w : Walk o) : Prop :=
  ∀ c style, TextStyle.Restored style (style.afterSteps (w.run c).1)

variable {content : Walk o}

theorem restores_steps {parts : Option (Context o) → List Step}
    (h : ∀ c style, TextStyle.Restored style (style.afterSteps (parts c))) :
    (steps parts).Restores :=
  h

theorem restores_nothing : (nothing : Walk o).Restores :=
  fun _ style => style.restored_refl

theorem restores_fail (e : Error) : (fail e : Walk o).Restores :=
  fun _ style => style.restored_refl

theorem restores_text {text : Option (Context o) → Step}
    (ht : ∀ c, (text c).text?.isSome = true) : (steps fun c => [text c]).Restores := by
  refine restores_steps fun c style => ?_
  rw [TextStyle.afterSteps, List.flatMap_singleton, Step.afterAll_text (ht c)]
  exact style.restored_refl

theorem restores_followedBy {a b : Walk o} (ha : a.Restores) (hb : b.Restores) :
    (a.followedBy b).Restores := by
  intro c style
  show style.Restored (style.afterSteps ((a.run c).1 ++ (b.run (a.run c).2).1))
  rw [TextStyle.afterSteps_append]
  exact (ha c style).trans (hb _ _)

theorem restores_choose (tag : String) {pick : Context o → Walk o} (h : ∀ c, (pick c).Restores) :
    (choose tag pick).Restores := by
  intro c
  cases c with
  | none => exact restores_fail (.contextRequired tag) none
  | some c => exact h c (some c)

theorem restores_withVariable (name : String) (item : ValueOf o) (h : content.Restores) :
    (withVariable name item content).Restores := by
  intro c
  cases c with
  | none => exact fun style => style.restored_refl
  | some c =>
      rw [run_withVariable]
      split
      · exact fun style => style.restored_refl
      · exact h _

theorem restores_forEach (name : String) (h : content.Restores) (items : List (ValueOf o)) :
    (forEach name content items).Restores := by
  induction items with
  | nil => exact restores_nothing
  | cons item rest ih => exact restores_followedBy (restores_withVariable name item h) ih

/-- The style after a styled content: the last command resets what the first one
    sets. -/
theorem restores_between {t : Tag} {on off : Style} (hs : t.styles? = some (.ok (on, off)))
    (h : content.Restores) : (between on off content).Restores := by
  obtain ⟨hon, hoff, isOff⟩ := aspects_of_styles hs
  intro c style a
  have hrun : style.afterSteps ((between on off content).run c).1
      = ((style.afterAll on.events).afterSteps (content.run c).1).afterAll off.events := by
    show style.afterSteps ([.command (.style on)] ++ (content.run c).1 ++ [.command (.style off)])
      = _
    rw [TextStyle.afterSteps_append, TextStyle.afterSteps_append]
    simp only [TextStyle.afterSteps, List.flatMap_singleton, Step.events, Command.events]
  rw [hrun]
  -- What the element controls is reset behind it, whatever its content did.  The
  -- rest is left alone by both commands, so the content decides.
  by_cases ha : a ∈ aspects t.name
  · exact .inr (Style.same_of_off isOff (hoff ▸ ha) _)
  · have first := on.same_of_other (hon ▸ ha) style
    have last := off.same_of_other (hoff ▸ ha)
      ((style.afterAll on.events).afterSteps (content.run c).1)
    exact (h c _ a).imp (fun k => last.trans (k.trans first)) last.trans

/-- The other commands of elements change no style, unless they reset all. -/
theorem restored_of_commands {t : Tag} {cs : List Command} (h : t.commands? = some (.ok cs))
    (style : TextStyle) : style.Restored (style.afterAll (cs.flatMap Command.events)) := by
  cases t, h using Tag.commands_cases with
  | reset attributes h =>
      cases h
      exact fun a => .inr (a.same_refl {})
  | feed attributes h =>
      obtain ⟨lines, -, h⟩ := bind_eq_ok (Option.some.inj h)
      cases lines with
      | some lines =>
          cases h
          exact style.restored_refl
      | none =>
          obtain ⟨dots, -, h⟩ := bind_eq_ok h
          cases dots <;> cases h <;> exact style.restored_refl
  | cut attributes h =>
      obtain ⟨dots, -, h⟩ := bind_eq_ok (Option.some.inj h)
      cases dots <;> cases h <;> exact style.restored_refl
  | drawer attributes h =>
      obtain ⟨on, -, h⟩ := bind_eq_ok (Option.some.inj h)
      obtain ⟨off, -, h⟩ := bind_eq_ok h
      cases h
      exact style.restored_refl
  | beep attributes h =>
      obtain ⟨times, -, h⟩ := bind_eq_ok (Option.some.inj h)
      obtain ⟨duration, -, h⟩ := bind_eq_ok h
      cases h
      exact style.restored_refl
  | spacing attributes h =>
      obtain ⟨character, -, h⟩ := bind_eq_ok (Option.some.inj h)
      obtain ⟨line, -, h⟩ := bind_eq_ok h
      cases h
      cases character <;> cases line <;> exact style.restored_refl
  | margin attributes h =>
      obtain ⟨left, -, h⟩ := bind_eq_ok (Option.some.inj h)
      cases h
      cases left <;> exact style.restored_refl
  | codepage attributes h =>
      obtain ⟨table, -, h⟩ := bind_eq_ok (Option.some.inj h)
      cases h
      cases table <;> exact style.restored_refl

/-- Codes and images change no style. -/
theorem restored_of_filledSteps {t : Tag} {locate : String → String} {fill : String → String}
    {parts : (String → String) → Except Error (List Step)} {steps : List Step}
    (h : t.filledSteps? locate = some parts) (hp : parts fill = .ok steps) (style : TextStyle) :
    style.Restored (style.afterSteps steps) := by
  cases t, h using Tag.filledSteps_cases with
  | qrcode attributes h =>
      cases h
      obtain ⟨cs, hcs, rfl⟩ := map_eq_ok hp
      obtain ⟨size, -, hcs⟩ := bind_eq_ok hcs
      cases hcs
      exact style.restored_refl
  | barcode attributes h =>
      cases h
      obtain ⟨cs, hcs, rfl⟩ := map_eq_ok hp
      obtain ⟨height, -, hcs⟩ := bind_eq_ok hcs
      obtain ⟨width, -, hcs⟩ := bind_eq_ok hcs
      cases hn : Markup.Attributes.nonEmpty? attributes "hri" <;> rw [hn] at hcs <;> cases hcs
        <;> exact style.restored_refl
  | image attributes h =>
      cases h
      obtain ⟨step, hstep, rfl⟩ := map_eq_ok hp
      rw [Tag.imageStep] at hstep
      split at hstep
      · cases hstep
      · obtain ⟨function, -, hstep⟩ := bind_eq_ok hstep
        cases hstep
        exact style.restored_refl

variable [Members o]

theorem restores_conditional (t : Tag) (h : content.Restores) :
    (conditional t content).Restores := by
  rw [conditional]
  split
  · exact restores_fail _
  · refine restores_choose _ fun c => ?_
    split
    · exact h
    · exact restores_nothing

theorem restores_loop (s : Settings) (t : Tag) (h : content.Restores) :
    (loop s t content).Restores := by
  rw [loop]
  split
  · exact restores_fail _
  split
  · exact restores_fail _
  refine restores_choose _ fun c => ?_
  rw [overItems.eq_def]
  split
  · exact restores_nothing
  · exact restores_nothing
  · split
    · exact restores_fail _
    · exact restores_forEach _ h _
  · exact restores_fail _

theorem restores_element (s : Settings) (e : Encoding) (t : Tag) (text : String)
    (h : content.Restores) : (element s e t text content).Restores := by
  refine element_cases (motive := Restores) ?plain ?line ?chosen ?repeated ?styled ?unstyled ?fixed
    ?filled ?transparent
  case plain => exact fun _ => restores_text fun _ => rfl
  case line => exact fun _ => restores_text fun _ => rfl
  case chosen => exact fun _ => restores_conditional t h
  case repeated => exact fun _ => restores_loop s t h
  case styled => exact fun on off hs => restores_between hs h
  case unstyled => exact fun fault _ => restores_fail fault
  case fixed =>
    intro parts hp
    refine restores_steps fun c style => ?_
    cases parts with
    | error fault => exact style.restored_refl
    | ok cs =>
      show style.Restored (style.afterAll ((cs.map Step.command).flatMap Step.events))
      rw [List.flatMap_map]
      exact restored_of_commands hp style
  case filled =>
    intro parts hp
    refine restores_steps fun c style => ?_
    cases hf : parts (fill c) with
    | error fault => exact style.restored_refl
    | ok steps => exact restored_of_filledSteps hp hf style
  case transparent => exact fun _ => h

mutual

/-- **NO STYLE OUTLIVES ITS ELEMENT**, over every tree and under every context: after
    a walk each aspect is as it was, or as it is at first. -/
theorem restores_node (s : Settings) (e : Encoding) : ∀ n : Node, (node (o := o) s e n).Restores
  | .text content => by
      rw [node]
      split
      · exact restores_nothing
      · exact restores_text fun _ => rfl
  | .element name attributes children => by
      rw [node]
      split
      · exact restores_fail _
      · exact restores_element s _ _ _ (restores_nodes s _ children)

theorem restores_nodes (s : Settings) (e : Encoding) :
    ∀ ns : List Node, (nodes (o := o) s e ns).Restores
  | [] => restores_nothing
  | n :: rest => by
      rw [nodes]
      exact restores_followedBy (restores_node s e n) (restores_nodes s e rest)

end

end Walk

end ReceiptPrinter
