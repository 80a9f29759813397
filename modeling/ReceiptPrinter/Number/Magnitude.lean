/-! # Magnitudes — exact binary values

    A finite binary number is a sign and a magnitude `significand * 2 ^ exponent`.
    Every text of a number is worked out from its magnitude in whole-number
    arithmetic. -/

namespace ReceiptPrinter.Number

/-- The exact value `significand * 2 ^ exponent`. -/
structure Magnitude where
  significand : Nat
  exponent : Int
deriving DecidableEq, Repr

namespace Magnitude

/-- The value is `numerator / denominator`. -/
def numerator (v : Magnitude) : Nat :=
  v.significand * Nat.pow 2 v.exponent.toNat

/-- The power of two that the numerator is divided by. -/
def denominator (v : Magnitude) : Nat :=
  Nat.pow 2 (-v.exponent).toNat

theorem denominator_pos (v : Magnitude) : 0 < v.denominator :=
  Nat.two_pow_pos _

end Magnitude

end ReceiptPrinter.Number
