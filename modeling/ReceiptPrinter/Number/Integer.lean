/-! # Whole numbers — digits and a sign

    A whole number is at least one digit `0` to `9`, with a sign in front where signs
    are allowed.  Superfluous zeros do not matter. -/

namespace ReceiptPrinter.Number

/-- The value of a digit `0` to `9`. -/
def digitValue? (c : Char) : Option Nat :=
  if '0' ≤ c ∧ c ≤ '9' then some (c.toNat - '0'.toNat) else none

/-- The value of digits that follow those of `n`. -/
def digitsOnto? (n : Nat) : List Char → Option Nat
  | [] => some n
  | c :: rest => (digitValue? c).bind fun d => digitsOnto? (10 * n + d) rest

/-- The value of a text of at least one digit. -/
def digits? : List Char → Option Nat
  | [] => none
  | digits => digitsOnto? 0 digits

/-- The value of a text of at least one digit, which may have a `+` in front. -/
def unsigned? : List Char → Option Nat
  | '+' :: digits => digits? digits
  | digits => digits? digits

/-- The value of a text of at least one digit, which may have a `+` or a `-` in
    front. -/
def signed? : List Char → Option Int
  | '-' :: digits => (digits? digits).map fun n => -(Int.ofNat n)
  | digits => (unsigned? digits).map Int.ofNat

/-- Whether a whole number fits into 64 bits with sign. -/
def fits64 (n : Int) : Bool :=
  Int64.minValue.toInt ≤ n && n ≤ Int64.maxValue.toInt

/-- The value of a signed numeral that fits into 64 bits. -/
def integer64? (digits : List Char) : Option Int :=
  (signed? digits).filter fits64

/-- The value of an unsigned numeral that is at most `greatest`. -/
def atMost? (greatest : Nat) (digits : List Char) : Option Nat :=
  (unsigned? digits).filter (· ≤ greatest)

end ReceiptPrinter.Number
