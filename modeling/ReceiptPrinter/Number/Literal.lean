import ReceiptPrinter.Number.Binary64
import ReceiptPrinter.Number.Integer

/-! # Decimal numerals — numbers out of text

    A decimal numeral has an optional sign, digits with at most one point among them,
    and an optional exponent.  Its exact value is rounded once.  The words for the
    infinities and for no number are read in any letter case. -/

namespace ReceiptPrinter.Number

/-- A decimal numeral taken apart: its value is `digits * 10 ^ exponent`. -/
structure Numeral where
  negative : Bool
  digits : Nat
  exponent : Int

/-- The quotient of a numeral's value; one too large or too small for any binary
    number is cut off first, so that it stays small. -/
def Numeral.quotient (x : Numeral) : Nat × Nat :=
  let order := x.exponent + Int.ofNat (Nat.toDigits 10 x.digits).length
  if x.digits = 0 ∨ order < -400 then (0, 1)
  else if 400 < order then (Nat.pow 10 400, 1)
  else (x.digits * Nat.pow 10 x.exponent.toNat, Nat.pow 10 (-x.exponent).toNat)

/-- Splits the digits off the front of a text. -/
def takeDigits (cs : List Char) : List Char × List Char :=
  (cs.takeWhile Char.isDigit, cs.dropWhile Char.isDigit)

/-- Reads an exponent, which is all of the text or missing. -/
def exponent? : List Char → Option Int
  | [] => some 0
  | 'e' :: rest | 'E' :: rest => signed? rest
  | _ => none

/-- Reads a numeral whose sign has been read. -/
def Numeral.readUnsigned? (negative : Bool) (cs : List Char) : Option Numeral :=
  let (whole, rest) := takeDigits cs
  let (fraction, rest) := match rest with
    | '.' :: more => takeDigits more
    | other => ([], other)
  match digits? (whole ++ fraction), exponent? rest with
  | some digits, some exponent => some ⟨negative, digits, exponent - Int.ofNat fraction.length⟩
  | _, _ => none

/-- Reads the sign of a numeral: whether it is `-`, and what follows. -/
def takeSign : List Char → Bool × List Char
  | '-' :: rest => (true, rest)
  | '+' :: rest => (false, rest)
  | rest => (false, rest)

/-- Reads a number by a way of rounding quotients. -/
def readNumber? (round : Bool → Nat → Nat → Binary64) (s : String) : Option Binary64 :=
  let (negative, rest) := takeSign s.toList
  let word := String.ofList (rest.map Char.toLower)
  if word = "inf" ∨ word = "infinity" then some (.infinite negative)
  else if word = "nan" then some .nan
  else (Numeral.readUnsigned? negative rest).map fun x =>
    round negative x.quotient.1 x.quotient.2

/-- Reads the number of 64 bits nearest to a decimal text. -/
def readDouble? (s : String) : Option Binary64 :=
  readNumber? Binary64.ofQuotient s

/-- Reads the number of 32 bits nearest to a decimal text. -/
def readSingle? (s : String) : Option Binary64 :=
  readNumber? Binary64.ofQuotientSingle s

end ReceiptPrinter.Number
