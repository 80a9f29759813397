import ReceiptPrinter.Number.Rounding
import ReceiptPrinter.Number.Magnitude

/-! # Binary numbers of 64 bits — exact results, rounded

    The numbers of the IEEE format `binary64`: a sign with a magnitude of at most 53
    significant bits, an infinity of either sign, or no number.  Every operation here
    is the exact result rounded to the nearest number of the format, a half to the
    even neighbour; what lies past the greatest number is infinite. -/

namespace ReceiptPrinter.Number

/-- A binary format: how many bits a significand has, and the least and the greatest
    exponent of its last bit. -/
structure Precision where
  bits : Nat
  least : Int
  greatest : Int

/-- The format of 64 bits. -/
def Precision.double : Precision := ⟨53, -1074, 971⟩

/-- The format of 32 bits. -/
def Precision.single : Precision := ⟨24, -149, 104⟩

/-- A binary number of 64 bits. -/
inductive Binary64 where
  | finite (negative : Bool) (magnitude : Magnitude)
  | infinite (negative : Bool)
  | nan
deriving DecidableEq, Repr

/-- The quotient `num / den` in units of `2 ^ exponent`, rounded. -/
def unitsAt (num den : Nat) (exponent : Int) : Nat :=
  roundHalfEven (num * Nat.pow 2 (-exponent).toNat) (den * Nat.pow 2 exponent.toNat)

/-- The exponent of the last bit that a quotient of about `2 ^ order` leaves room
    for. -/
def Precision.lastBit (p : Precision) (order : Int) : Int :=
  max p.least (order - p.bits)

/-- The magnitude nearest to the positive quotient `num / den`, or nothing when the
    quotient is past the greatest one. -/
def Precision.nearest? (p : Precision) (num den : Nat) : Option Magnitude :=
  if num = 0 then some ⟨0, p.least⟩
  else
    let order : Int := Int.ofNat num.log2 - Int.ofNat den.log2
    let narrow := p.lastBit order
    let wide := if unitsAt num den narrow < Nat.pow 2 p.bits then narrow else p.lastBit (order + 1)
    let units := unitsAt num den wide
    let v : Magnitude :=
      if units < Nat.pow 2 p.bits then ⟨units, wide⟩ else ⟨units / 2, wide + 1⟩
    if v.exponent ≤ p.greatest then some v else none

namespace Binary64

/-- The number nearest to a quotient, with the given sign. -/
def ofQuotient (negative : Bool) (num den : Nat) : Binary64 :=
  match Precision.double.nearest? num den with
  | some v => .finite negative v
  | none => .infinite negative

/-- The number nearest to a quotient among those of 32 bits, with the given sign.
    Each of them is a number of 64 bits, which is found by rounding once more without
    loss. -/
def ofQuotientSingle (negative : Bool) (num den : Nat) : Binary64 :=
  match Precision.single.nearest? num den with
  | some v => ofQuotient negative v.numerator v.denominator
  | none => .infinite negative

/-- The number nearest to a natural number. -/
def ofNat (n : Nat) : Binary64 :=
  ofQuotient false n 1

/-- The number nearest to an integer. -/
def ofInt (n : Int) : Binary64 :=
  ofQuotient (n < 0) n.natAbs 1

/-- A number with the other sign. -/
def neg : Binary64 → Binary64
  | .finite negative v => .finite (!negative) v
  | .infinite negative => .infinite (!negative)
  | .nan => .nan

/-- Whether a number is a zero of either sign. -/
def isZero : Binary64 → Bool
  | .finite _ v => v.significand == 0
  | _ => false

/-- Whether two numbers compare equal: the zeros do, and what is no number equals
    nothing. -/
def equal : Binary64 → Binary64 → Bool
  | .finite n v, .finite k w => (v.significand == 0 && w.significand == 0) || (n == k && v == w)
  | .infinite n, .infinite k => n == k
  | _, _ => false

/-- A number times a positive natural number. -/
def scale (x : Binary64) (factor : Nat) : Binary64 :=
  match x with
  | .finite negative v => ofQuotient negative (v.numerator * factor) v.denominator
  | other => other

/-- The product of a number and a finite positive one. -/
def times (x : Binary64) (y : Magnitude) : Binary64 :=
  match x with
  | .finite negative v =>
    ofQuotient negative (v.numerator * y.numerator) (v.denominator * y.denominator)
  | other => other

/-- The quotient of a number by a finite positive one. -/
def dividedBy (x : Binary64) (y : Magnitude) : Binary64 :=
  match x with
  | .finite negative v =>
    ofQuotient negative (v.numerator * y.denominator) (v.denominator * y.numerator)
  | other => other

end Binary64

end ReceiptPrinter.Number
