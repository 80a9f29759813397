import ReceiptPrinter.Proofs.Command.Meaning
import ReceiptPrinter.Proofs.Preview.Styles

/-! # Aspects — the parts of a style

    A style command sets one ASPECT of the style that a printer keeps, a size
    command two, and leaves the others alone.  There is no command that brings
    back what was there before.  What ends a style sets its aspect to what it is
    at first, so the most that can be said of a style after another one is that
    each aspect is as it was or as it is at first (`TextStyle.Restored`). -/

namespace ReceiptPrinter

namespace TextStyle

/-- What a style consists of. -/
inductive Aspect where
  | bold
  | underline
  | invert
  | side
  | width
  | height
deriving DecidableEq

/-- Styles that are the same in an aspect. -/
def Aspect.Same : Aspect → TextStyle → TextStyle → Prop
  | .bold, x, y => x.bold = y.bold
  | .underline, x, y => x.underline = y.underline
  | .invert, x, y => x.invert = y.invert
  | .side, x, y => x.side = y.side
  | .width, x, y => x.width = y.width
  | .height, x, y => x.height = y.height

theorem Aspect.same_refl (a : Aspect) (x : TextStyle) : a.Same x x := by
  cases a <;> rfl

theorem Aspect.Same.trans {a : Aspect} {x y z : TextStyle} (h : a.Same x y) (k : a.Same y z) :
    a.Same x z := by
  cases a <;> exact Eq.trans h k

theorem eq_of_same {x y : TextStyle} (h : ∀ a : Aspect, a.Same x y) : x = y := by
  obtain ⟨xb, xu, xi, xs, xw, xh⟩ := x
  obtain ⟨yb, yu, yi, ys, yw, yh⟩ := y
  obtain rfl : xb = yb := h .bold
  obtain rfl : xu = yu := h .underline
  obtain rfl : xi = yi := h .invert
  obtain rfl : xs = ys := h .side
  obtain rfl : xw = yw := h .width
  obtain rfl : xh = yh := h .height
  rfl

/-- A style after another of which each aspect is as it was or as it is at first. -/
def Restored (before after : TextStyle) : Prop :=
  ∀ a : Aspect, a.Same after before ∨ a.Same after {}

theorem restored_refl (style : TextStyle) : style.Restored style :=
  fun a => .inl (a.same_refl style)

theorem Restored.trans {x y z : TextStyle} (h : x.Restored y) (k : y.Restored z) :
    x.Restored z := by
  intro a
  rcases k a with k | k
  · exact (h a).imp k.trans k.trans
  · exact .inr k

end TextStyle

open TextStyle (Aspect)

/-- The aspects that a style command sets. -/
def Style.aspects : Style → List Aspect
  | .bold _ => [.bold]
  | .underline _ => [.underline]
  | .invert _ => [.invert]
  | .size .. => [.width, .height]
  | .normalSize => [.width, .height]
  | .align _ => [.side]
  | _ => []

/-- Whether a style command sets what there is at first. -/
def Style.isOff : Style → Bool
  | .bold on => !on
  | .underline mode => mode == 0
  | .invert on => !on
  | .align side => side == .left
  | .font f => f == .a
  | .rotate on => !on
  | .normalSize => true
  | _ => false

/-- A style command leaves all other aspects alone. -/
theorem Style.same_of_other (command : Style) {a : Aspect} (other : a ∉ command.aspects)
    (style : TextStyle) : a.Same (style.afterAll command.events) style := by
  cases command with
  | bold | underline | invert | align | size | normalSize =>
      cases a <;>
        first | rfl | exact absurd (.head _) other | exact absurd (.tail _ (.head _)) other
  | _ => exact a.same_refl style

theorem Style.same_of_off {command : Style} (off : command.isOff = true) {a : Aspect}
    (sets : a ∈ command.aspects) (style : TextStyle) :
    a.Same (style.afterAll command.events) {} := by
  cases command with
  | bold on | invert on =>
      obtain rfl := List.mem_singleton.mp sets
      cases on with
      | true => cases off
      | false => rfl
  | underline mode =>
      obtain rfl := List.mem_singleton.mp sets
      obtain rfl := beq_iff_eq.mp off
      rfl
  | align side =>
      obtain rfl := List.mem_singleton.mp sets
      exact beq_iff_eq.mp off
  | normalSize =>
      rcases List.mem_cons.mp sets with rfl | sets
      · rfl
      · obtain rfl := List.mem_singleton.mp sets
        rfl
  | size => cases off
  | _ => cases sets

end ReceiptPrinter
