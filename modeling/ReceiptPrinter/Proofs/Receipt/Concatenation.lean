import ReceiptPrinter.Proofs.Markup.Conformance
import ReceiptPrinter.Proofs.Receipt.Expansion

/-! # Concatenation — a container compiles child by child

    A receipt, or an element that is not in the vocabulary, stands for its content:
    it sends nothing of its own, and its children are compiled one after the other
    (`Settings.compile_container`).  A child leaves nothing behind for the next one.
    The context is as it was, whatever loops the child opened
    (`Walk.keeps_node`), the encoding is that of the container, and the bytes that
    were sent before matter to nobody.

    So the children can be cut in two anywhere: the bytes of the whole are those of
    the front and of the back, each compiled by itself under the same context, and
    the first part that fails is the one whose error comes out
    (`Settings.compile_append`). -/

namespace ReceiptPrinter

open Markup (Node Attributes)

/-! ## Outcomes of two parts -/

section

variable {ε α : Type} {x y : Except ε (List α)} {e : ε}

theorem append_eq_ok_iff {all : List α} :
    (x.bind fun front => y.map (front ++ ·)) = .ok all
      ↔ ∃ front back, x = .ok front ∧ y = .ok back ∧ all = front ++ back := by
  constructor
  · intro h
    obtain ⟨front, hx, h⟩ := bind_eq_ok h
    obtain ⟨back, hy, rfl⟩ := map_eq_ok h
    exact ⟨front, back, hx, hy, rfl⟩
  · rintro ⟨front, back, rfl, rfl, rfl⟩
    rfl

theorem append_eq_error_iff :
    (x.bind fun front => y.map (front ++ ·)) = .error e
      ↔ x = .error e ∨ (∃ front, x = .ok front) ∧ y = .error e := by
  constructor
  · intro h
    rcases bind_eq_error h with hx | ⟨front, hx, h⟩
    · exact .inl hx
    · exact .inr ⟨⟨front, hx⟩, map_eq_error h⟩
  · rintro (rfl | ⟨⟨front, rfl⟩, rfl⟩) <;> rfl

end

/-! ## Containers -/

/-- A container sends nothing of its own: it is the receipt itself, or an element
    that is not in the vocabulary. -/
def Tag.IsContainer (name : String) : Prop :=
  name = "receipt" ∨ Markup.rule? name = none

/-- No name with a meaning is that of a container. -/
theorem Tag.IsContainer.not_mem {name : String} (h : IsContainer name) : name ∉ elementNames := by
  intro hm
  have known : ∀ name ∈ elementNames,
      name ≠ "receipt" ∧ name ∈ Markup.elements.map Markup.ElementRule.name := by decide
  obtain ⟨other, listed⟩ := known name hm
  rcases h with h | h
  · exact other h
  · obtain ⟨r, hr, same⟩ := List.mem_map.mp listed
    exact Markup.rule?_eq_none_iff.mp h r hr same

theorem Tag.styles?_of_container {t : Tag} (h : IsContainer t.name) : t.styles? = none := by
  cases hs : t.styles? with
  | none => rfl
  | some r =>
      have hm := h.not_mem
      cases t, hs using styles_cases with
      | _ => exact absurd (by dsimp only; decide) hm

theorem Tag.commands?_of_container {t : Tag} (h : IsContainer t.name) : t.commands? = none := by
  cases hs : t.commands? with
  | none => rfl
  | some r =>
      have hm := h.not_mem
      cases t, hs using commands_cases with
      | _ => exact absurd (by dsimp only; decide) hm

theorem Tag.filledSteps?_of_container {t : Tag} (h : IsContainer t.name)
    (locate : String → String) : t.filledSteps? locate = none := by
  cases hs : t.filledSteps? locate with
  | none => rfl
  | some r =>
      have hm := h.not_mem
      cases t, hs using filledSteps_cases with
      | _ => exact absurd (by dsimp only; decide) hm

/-- The walk of a container is that of its content. -/
theorem Walk.element_of_container {o : Type} [Members o] {t : Tag}
    (h : Tag.IsContainer t.name) (s : Settings) (e : Encoding) (text : String)
    (content : Walk o) : element s e t text content = content := by
  have named : ∀ name ∈ Tag.basicNames, t.name ≠ name := by
    rintro name hm rfl
    exact h.not_mem (List.mem_append_left _ (List.mem_append_left _ (List.mem_append_left _ hm)))
  rw [element_eq_ofForm, Tag.form_of_other (named _ (by decide)) (named _ (by decide))
    (named _ (by decide)) (named _ (by decide)), t.styles?_of_container h,
    t.commands?_of_container h, t.filledSteps?_of_container h]
  rfl

namespace Settings

variable {o : Type} [Members o] {s : Settings} {name : String}

/-- **A CONTAINER COMPILES TO ITS CONTENT**, in the encoding that it names. -/
theorem compile_container (unchecked : s.validate = false) (container : Tag.IsContainer name)
    (load : String → Except FileFault Bytes) (attributes : Attributes) (children : List Node)
    (c : Option (Context o)) :
    (s.compile load ⟨name, attributes, children⟩ c).1
      = (Encoding.ofName s.encoding).bind fun outer =>
          (Walk.encodingOf outer attributes).bind fun e =>
            Step.allBytes load ((Walk.nodes s e children).run c).1 := by
  cases houter : Encoding.ofName s.encoding with
  | error fault =>
      rw [compile, plan, unchecked, houter]
      rfl
  | ok outer =>
      rw [compile_unchecked unchecked houter, Markup.Element.toNode, Walk.node]
      show _ = (Walk.encodingOf outer attributes).bind _
      cases Walk.encodingOf outer attributes with
      | error fault => rfl
      | ok e =>
          dsimp only
          rw [Walk.element_of_container container]
          rfl

/-- **THE CHILDREN OF A CONTAINER CAN BE CUT IN TWO ANYWHERE.**  Under every context
    or none, the container with all of them compiles just if it does with those in
    front and with those behind, and then to the bytes of the two, one after the
    other.  If it fails, the error is that of the children in front, or, where they
    compile, that of those behind. -/
theorem compile_append (unchecked : s.validate = false) (container : Tag.IsContainer name)
    (load : String → Except FileFault Bytes) (attributes : Attributes) (xs ys : List Node)
    (c : Option (Context o)) :
    (∀ bytes, (s.compile load ⟨name, attributes, xs ++ ys⟩ c).1 = .ok bytes
        ↔ ∃ front back, (s.compile load ⟨name, attributes, xs⟩ c).1 = .ok front
          ∧ (s.compile load ⟨name, attributes, ys⟩ c).1 = .ok back ∧ bytes = front ++ back)
      ∧ ∀ e, (s.compile load ⟨name, attributes, xs ++ ys⟩ c).1 = .error e
        ↔ (s.compile load ⟨name, attributes, xs⟩ c).1 = .error e
          ∨ (∃ front, (s.compile load ⟨name, attributes, xs⟩ c).1 = .ok front)
            ∧ (s.compile load ⟨name, attributes, ys⟩ c).1 = .error e := by
  have joined : (s.compile load ⟨name, attributes, xs ++ ys⟩ c).1
      = (s.compile load ⟨name, attributes, xs⟩ c).1.bind fun front =>
          (s.compile load ⟨name, attributes, ys⟩ c).1.map (front ++ ·) := by
    simp only [compile_container unchecked container]
    -- A name that is no encoding is the error of every part.
    cases Encoding.ofName s.encoding with
    | error fault => rfl
    | ok outer =>
        simp only [Except.bind]
        cases Walk.encodingOf outer attributes with
        | error fault => rfl
        | ok e =>
            dsimp only
            rw [Walk.run_nodes_append, Step.allBytes_append]
            rfl
  rw [joined]
  exact ⟨fun bytes => append_eq_ok_iff, fun e => append_eq_error_iff⟩

end Settings

/-- A loop that gives `i` a value. -/
def sectionFront : List Node :=
  [.element "for" [("var", "i"), ("in", "Items")]
    [.element "bold" [] [.text "${i}"]]]

/-- A condition on `i`, and a cut. -/
def sectionBack : List Node :=
  [.element "if" [("condition", "i")] [.text "left behind"], .element "cut" [] []]

/-- In a `section`, which is no element of the vocabulary, the condition behind the
    loop does not see its variable. -/
theorem compile_sectionParts :
    lenient.validate = false ∧ Tag.IsContainer "section"
      ∧ (lenient.compile (fun _ => .error .notFound)
          ⟨"section", [], sectionFront ++ sectionBack⟩ (some itemContext)).1
        = .ok ([0x1B, 0x45, 0x01, 0x41, 0x1B, 0x45, 0x00, 0x1B, 0x45, 0x01, 0x1B, 0x45, 0x00,
            0x1B, 0x45, 0x01, 0x42, 0x1B, 0x45, 0x00] ++ [0x1D, 0x56, 0x01]) := by
  have unknown : Tag.IsContainer "section" := .inr (by decide)
  have front : (lenient.compile (fun _ => .error .notFound)
      ⟨"section", [], sectionFront⟩ (some itemContext)).1
      = .ok [0x1B, 0x45, 0x01, 0x41, 0x1B, 0x45, 0x00, 0x1B, 0x45, 0x01, 0x1B, 0x45, 0x00,
          0x1B, 0x45, 0x01, 0x42, 0x1B, 0x45, 0x00] := ok_of_toOption (by decide +kernel)
  have back : (lenient.compile (fun _ => .error .notFound)
      ⟨"section", [], sectionBack⟩ (some itemContext)).1
      = .ok [0x1D, 0x56, 0x01] := ok_of_toOption (by decide +kernel)
  exact ⟨rfl, unknown,
    ((Settings.compile_append rfl unknown _ [] sectionFront sectionBack _).1 _).mpr
      ⟨_, _, front, back, rfl⟩⟩

end ReceiptPrinter
