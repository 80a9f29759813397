import ReceiptPrinter.Number.Rounding
import ReceiptPrinter.Number.Magnitude
import ReceiptPrinter.Number.Digits

/-! # Fixed point — a number with a given count of decimal places

    The exact binary value is rounded to the nearest multiple of the last place, a
    half to the even neighbour, and written as the digits before and after the point. -/

namespace ReceiptPrinter.Number

/-- The digits of a number before and after its decimal point. -/
structure FixedPoint where
  whole : List Char
  fraction : List Char
deriving DecidableEq, Repr

/-- How many units of the last place a magnitude has, rounded. -/
def Magnitude.units (v : Magnitude) (places : Nat) : Nat :=
  roundHalfEven (v.numerator * Nat.pow 10 places) v.denominator

/-- The digits of so many units of the last place. -/
def FixedPoint.ofUnits (units places : Nat) : FixedPoint where
  whole := decimal (units / Nat.pow 10 places)
  fraction := if places = 0 then [] else padZeros places (decimal (units % Nat.pow 10 places))

/-- A magnitude with so many decimal places. -/
def Magnitude.fixed (v : Magnitude) (places : Nat) : FixedPoint :=
  .ofUnits (v.units places) places

/-- The digits with a point between them when there are decimal places. -/
def FixedPoint.chars (x : FixedPoint) : List Char :=
  if x.fraction = [] then x.whole else x.whole ++ '.' :: x.fraction

/-- Whether some digit is not zero. -/
def FixedPoint.nonzero (x : FixedPoint) : Bool :=
  hasNonzero x.whole || hasNonzero x.fraction

/-- A number with so many decimal places.  The sign is always shown, so that a
    negative number that rounds to zero keeps its `-`. -/
def fixedText (negative : Bool) (v : Magnitude) (places : Nat) : List Char :=
  let digits := (v.fixed places).chars
  if negative then '-' :: digits else digits

end ReceiptPrinter.Number
