import ReceiptPrinter.Number.Binary64
import ReceiptPrinter.Number.Fixed
import ReceiptPrinter.Number.Integer

/-! # Number formats — letters and patterns

    A format is a letter with an optional count of digits, or a pattern of `0`, `#`,
    `,` and `.`:

    * `F` decimal places, `N` decimal places with separators, `P` the same for a
      percentage,
    * `D` an integer padded with zeros, `X` and `x` its 64-bit pattern in
      hexadecimal,
    * a pattern: `0` is a digit, `#` a digit that may be missing, `,` asks for
      separators.

    An integer under `F`, `N`, `P` or a pattern is first rounded to a binary number
    of 64 bits. -/

namespace ReceiptPrinter.Number

/-- The bounds a pattern sets on the digits of a number. -/
structure Pattern where
  /-- The least count of digits before the point. -/
  minWhole : Nat
  /-- The least count of digits after the point. -/
  minFraction : Nat
  /-- The count of decimal places that the number is rounded to. -/
  maxFraction : Nat
  /-- Whether the digits before the point are separated. -/
  grouped : Bool
deriving DecidableEq, Repr

/-- A way of writing numbers. -/
inductive Format where
  | fixed (places : Nat)
  | grouped (places : Nat)
  | percent (places : Nat)
  | padded (width : Nat)
  | upperHex (width : Nat)
  | lowerHex (width : Nat)
  | pattern (bounds : Pattern)
deriving DecidableEq, Repr

/-- The bounds that a pattern sets, split at its point. -/
def Pattern.ofParts (whole fraction : List Char) : Pattern where
  minWhole := whole.count '0'
  minFraction := fraction.count '0'
  maxFraction := fraction.count '0' + fraction.count '#'
  grouped := whole.contains ','

/-- Reads a pattern: at least one digit place, nothing but digit places, separators
    and at most one point. -/
def Pattern.read? (spec : List Char) : Option Pattern :=
  if spec.any (fun c => c == '0' || c == '#') &&
      spec.all (fun c => c == '0' || c == '#' || c == '.' || c == ',') &&
      spec.count '.' ≤ 1 then
    some (.ofParts (spec.takeWhile (· ≠ '.')) ((spec.dropWhile (· ≠ '.')).drop 1))
  else none

/-- The count of digits after a format's letter: at most 99, or the default when
    there is none. -/
def precision? (default : Nat) : List Char → Option Nat
  | [] => some default
  | digits => atMost? 99 digits

/-- Reads a format. -/
def Format.read? (spec : String) : Option Format :=
  match spec.toList with
  | 'F' :: rest | 'f' :: rest => (precision? 2 rest).map .fixed
  | 'N' :: rest | 'n' :: rest => (precision? 2 rest).map .grouped
  | 'P' :: rest | 'p' :: rest => (precision? 2 rest).map .percent
  | 'D' :: rest | 'd' :: rest => (precision? 0 rest).map .padded
  | 'X' :: rest => (precision? 0 rest).map .upperHex
  | 'x' :: rest => (precision? 0 rest).map .lowerHex
  | cs => (Pattern.read? cs).map .pattern

/-- A magnitude with separators between thousands.  A sign is shown only before a
    digit other than zero. -/
def groupedText (negative : Bool) (v : Magnitude) (places : Nat) : List Char :=
  let digits := v.fixed places
  let body := FixedPoint.chars { digits with whole := groupThousands digits.whole }
  if negative && digits.nonzero then '-' :: body else body

/-- A number with separators between thousands; what has no digits is written `inf`
    or `NaN`. -/
def groupedNumber (x : Binary64) (places : Nat) : List Char :=
  match x with
  | .finite negative v => groupedText negative v places
  | .infinite _ => ['i', 'n', 'f']
  | .nan => ['N', 'a', 'N']

/-- Drops zeros at the end of digits, but keeps at least `least` of them. -/
def dropZerosTo (least : Nat) (digits : List Char) : List Char :=
  digits.take least ++ dropZerosEnd (digits.drop least)

/-- The digits of a fixed-point number within the bounds of a pattern, separators not
    yet put in. -/
def Pattern.fit (p : Pattern) (x : FixedPoint) : FixedPoint where
  whole := padZeros p.minWhole (x.whole.dropWhile (· == '0'))
  fraction := dropZerosTo p.minFraction x.fraction

/-- A magnitude within the bounds of a pattern.  A sign is shown only before a digit
    other than zero. -/
def Pattern.text (p : Pattern) (negative : Bool) (v : Magnitude) : List Char :=
  let digits := p.fit (v.fixed p.maxFraction)
  let body := FixedPoint.chars
    (if p.grouped then { digits with whole := groupThousands digits.whole } else digits)
  if negative && digits.nonzero then '-' :: body else body

/-- A numeral with its letters in upper case. -/
def upperDigits (digits : List Char) : List Char :=
  digits.map Char.toUpper

/-- The bit pattern of an integer of 64 bits as a hexadecimal numeral. -/
def hexadecimal (n : Int64) : List Char :=
  Nat.toDigits 16 n.toUInt64.toNat

/-- An integer with its digits padded by zeros, the sign in front of them. -/
def paddedText (n : Int64) (width : Nat) : List Char :=
  let digits := padZeros width (decimal n.toInt.natAbs)
  if n.toInt < 0 then '-' :: digits else digits

/-- A number written in a format, or nothing when the number is not finite or the
    format is for integers only. -/
def Format.applyToFloat? (format : Format) (x : Binary64) : Option (List Char) :=
  match x, format with
  | .finite negative v, .fixed places => some (fixedText negative v places)
  | .finite negative v, .grouped places => some (groupedText negative v places)
  | .finite negative v, .percent places =>
    some (groupedNumber ((Binary64.finite negative v).scale 100) places ++ [' ', '%'])
  | .finite negative v, .pattern p => some (p.text negative v)
  | _, _ => none

/-- An integer written in a format. -/
def Format.applyToInt? (format : Format) (n : Int64) : Option (List Char) :=
  match format with
  | .padded width => some (paddedText n width)
  | .upperHex width => some (padZeros width (upperDigits (hexadecimal n)))
  | .lowerHex width => some (padZeros width (hexadecimal n))
  | other => other.applyToFloat? (.ofInt n.toInt)

/-- An integer in the format that a text describes, if it describes one. -/
def formatInt? (n : Int64) (spec : String) : Option String :=
  (Format.read? spec).bind fun format => (format.applyToInt? n).map String.ofList

/-- A number in the format that a text describes, if it describes one for it. -/
def formatFloat? (x : Binary64) (spec : String) : Option String :=
  (Format.read? spec).bind fun format => (format.applyToFloat? x).map String.ofList

end ReceiptPrinter.Number
