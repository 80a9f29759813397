import ReceiptPrinter.Number.Binary64
import ReceiptPrinter.Number.Digits

/-! # Shortest decimals — the fewest digits that read back

    The numbers nearest to a floating-point number form an interval around its
    magnitude; any decimal in it reads back as the same number.  The text has the
    fewest digits that reach into the interval, of those the nearest to the exact
    value, and the upper one of two that are equally near.  It is always written out
    in full, without an exponent. -/

namespace ReceiptPrinter.Number

/-- The decimal `digits * 10 ^ exponent`. -/
structure DecimalValue where
  digits : Nat
  exponent : Int
deriving DecidableEq, Repr

/-- The interval of values that read back as one number, over a common denominator:
    the value lies at `middle`, and the ends belong to it when `closed`. -/
structure Neighbourhood where
  low : Nat
  middle : Nat
  high : Nat
  denominator : Nat
  closed : Bool

/-- The values nearer to a magnitude than to any other.  Below a power of two the
    next number is only half as far away. -/
def Magnitude.neighbourhood (v : Magnitude) : Neighbourhood :=
  let up := Nat.pow 2 (v.exponent - 2).toNat
  let below := if v.significand = Nat.pow 2 52 ∧ -1074 < v.exponent then 1 else 2
  { low := (4 * v.significand - below) * up
    middle := 4 * v.significand * up
    high := (4 * v.significand + 2) * up
    denominator := Nat.pow 2 (2 - v.exponent).toNat
    closed := v.significand % 2 == 0 }

/-- The power of ten just above a positive quotient: the least `k` with
    `num / den < 10 ^ k`. -/
def decimalOrder (num den : Nat) : Int :=
  if den ≤ num then ((decimal (num / den)).length : Int)
  else
    let k := (decimal (den / num)).length
    if den ≤ num * Nat.pow 10 (k - 1) then 2 - (k : Int) else 1 - (k : Int)

/-- The decimal of the grid `10 ^ exponent` that reads back, if one of the two around
    the value does: the nearer of them, and the upper one when both are equally
    near. -/
def Neighbourhood.onGrid? (i : Neighbourhood) (exponent : Int) : Option DecimalValue :=
  let unit := Nat.pow 10 exponent.toNat * i.denominator
  let scale := Nat.pow 10 (-exponent).toNat
  let down := i.middle * scale / unit
  let holds (n : Nat) : Bool :=
    let x := n * unit
    if i.closed then i.low * scale ≤ x && x ≤ i.high * scale
    else i.low * scale < x && x < i.high * scale
  let upper : Bool := unit ≤ 2 * (i.middle * scale - down * unit)
  match holds down, holds (down + 1) with
  | true, true => some ⟨if upper then down + 1 else down, exponent⟩
  | true, false => some ⟨down, exponent⟩
  | false, true => some ⟨down + 1, exponent⟩
  | false, false => none

/-- The shortest decimal that reads back as a number of this magnitude. -/
def Magnitude.shortest (v : Magnitude) : DecimalValue :=
  if v.significand = 0 then ⟨0, 0⟩
  else
    let i := v.neighbourhood
    let order := decimalOrder i.middle i.denominator
    ((List.range 17).findSome? fun n => i.onGrid? (order - (n + 1 : Nat))).getD ⟨0, 0⟩

/-- A decimal written out in full, without zeros at the end of its fraction. -/
def DecimalValue.chars (d : DecimalValue) : List Char :=
  match d.exponent with
  | .ofNat zeros =>
    if d.digits = 0 then ['0'] else decimal d.digits ++ List.replicate zeros '0'
  | .negSucc n =>
    let places := n + 1
    let whole := decimal (d.digits / Nat.pow 10 places)
    let fraction := dropZerosEnd (padZeros places (decimal (d.digits % Nat.pow 10 places)))
    if fraction = [] then whole else whole ++ '.' :: fraction

/-- The plain text of a number. -/
def Binary64.plainText : Binary64 → String
  | .finite negative v =>
    let digits := v.shortest.chars
    String.ofList (if negative then '-' :: digits else digits)
  | .infinite negative => if negative then "-inf" else "inf"
  | .nan => "NaN"

end ReceiptPrinter.Number
