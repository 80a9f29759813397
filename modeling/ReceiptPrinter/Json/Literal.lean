import ReceiptPrinter.Number.Binary64
import ReceiptPrinter.Number.Integer

/-! # Numbers in JSON — integers and what is rounded

    A literal without point and exponent is an integer as long as its digits fit into
    64 bits and it is not a negative zero.  Any other literal is read by its first
    digits, as many as fit into 64 bits, which are then scaled by a power of ten; the
    scaling is rounded on its own, so the result can differ in its last bit from the
    literal's exact value. -/

namespace ReceiptPrinter.Json

open Number

/-- A number as it is written. -/
structure Literal where
  negative : Bool
  whole : List Char
  /-- The digits after the point, if there is one. -/
  fraction : Option (List Char)
  /-- The sign and the digits of the exponent, if there is one. -/
  exponent : Option (Bool × List Char)
deriving DecidableEq, Repr

/-- What a literal stands for. -/
inductive Amount where
  | integer (n : Int)
  | float (x : Binary64)
deriving DecidableEq, Repr

/-- The digits read so far: their value, and the power of ten that it is to be scaled
    by. -/
structure Significand where
  value : Nat
  scale : Int
deriving DecidableEq, Repr

/-- The value of a decimal digit. -/
def digit (c : Char) : Nat :=
  c.toNat - '0'.toNat

/-- Reads the digits before the point.  Once a digit does not fit, it and all after
    it only move the scale. -/
def Significand.takeWhole (s : Significand) : List Char → Significand
  | [] => s
  | c :: rest =>
    let value := 10 * s.value + digit c
    if value < UInt64.size then Significand.takeWhole ⟨value, s.scale⟩ rest
    else ⟨s.value, s.scale + Int.ofNat (rest.length + 1)⟩

/-- Reads the digits after the point.  Once a digit does not fit, it and all after it
    are left out. -/
def Significand.takeFraction (s : Significand) : List Char → Significand
  | [] => s
  | c :: rest =>
    let value := 10 * s.value + digit c
    if value < UInt64.size then Significand.takeFraction ⟨value, s.scale - 1⟩ rest
    else s

/-- The binary number nearest to a power of ten. -/
def powerOfTen (k : Nat) : Magnitude :=
  (Precision.double.nearest? (Nat.pow 10 k) 1).getD ⟨1, 0⟩

/-- The greatest power of ten that a number is scaled by in one step. -/
def greatestPower : Nat := 308

/-- Divides a number by `10 ^ k`, a step at a time. -/
def scaleDown (x : Binary64) (k : Nat) : Binary64 :=
  if x.isZero then x
  else if k ≤ greatestPower then x.dividedBy (powerOfTen k)
  else scaleDown (x.dividedBy (powerOfTen greatestPower)) (k - greatestPower)
termination_by k
decreasing_by simp only [greatestPower] at *; omega

/-- Multiplies a number by `10 ^ k`, unless the product is past the greatest
    number. -/
def scaleUp? (x : Binary64) (k : Nat) : Option Binary64 :=
  if x.isZero then some x
  else if greatestPower < k then none
  else match x.times (powerOfTen k) with
    | .finite negative v => some (.finite negative v)
    | _ => none

/-- The number that the digits and the scale of a literal give. -/
def Significand.toFloat? (s : Significand) (negative : Bool) : Option Binary64 :=
  let x := Binary64.ofNat s.value
  let scaled := match s.scale with
    | .ofNat k => scaleUp? x k
    | .negSucc k => some (scaleDown x (k + 1))
  scaled.map fun y => if negative then y.neg else y

/-- The digits of a literal and their scale. -/
def Literal.significand (l : Literal) : Significand :=
  let s := (Significand.takeWhole ⟨0, 0⟩ l.whole).takeFraction (l.fraction.getD [])
  match l.exponent with
  | none => s
  | some (negative, digits) =>
    let e : Int := Int.ofNat ((digits? digits).getD 0)
    ⟨s.value, if negative then s.scale - e else s.scale + e⟩

/-- The integer that a literal is written as, whatever its size. -/
def Literal.integer? (l : Literal) : Option Int :=
  match l.fraction, l.exponent with
  | none, none => (digits? l.whole).map fun n => if l.negative then -(Int.ofNat n) else Int.ofNat n
  | _, _ => none

/-- What a literal stands for, unless it is past the greatest number. -/
def Literal.amount? (l : Literal) : Option Amount :=
  let float? := (l.significand.toFloat? l.negative).map Amount.float
  match l.integer? with
  | none => float?
  | some n =>
    if l.negative then if Number.fits64 n ∧ n < 0 then some (.integer n) else float?
    else if n < UInt64.size then some (.integer n)
    else float?

/-- The natural number below `2 ^ 64` that a literal is written as. -/
def Literal.natural? (l : Literal) : Option Nat :=
  match l.amount? with
  | some (.integer (.ofNat n)) => some n
  | _ => none

end ReceiptPrinter.Json
