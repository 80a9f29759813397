/-! # Digits — numerals and their padding

    Numerals are lists of characters, most significant digit first, so that a sign, a
    point or separators can be put around them. -/

namespace ReceiptPrinter.Number

/-- The decimal numeral of a natural number, without superfluous zeros. -/
def decimal (n : Nat) : List Char :=
  Nat.toDigits 10 n

/-- The characters with as many `0` in front as a length of `width` takes. -/
def padZeros (width : Nat) (digits : List Char) : List Char :=
  List.replicate (width - digits.length) '0' ++ digits

theorem length_padZeros (width : Nat) (digits : List Char) :
    (padZeros width digits).length = max width digits.length := by
  rw [padZeros, List.length_append, List.length_replicate]
  omega

/-- A numeral without the zeros at its end. -/
def dropZerosEnd (digits : List Char) : List Char :=
  (digits.reverse.dropWhile (· == '0')).reverse

/-- Whether some digit of a numeral is not zero. -/
def hasNonzero (digits : List Char) : Bool :=
  digits.any fun c => '1' ≤ c && c ≤ '9'

/-- A numeral in groups of three digits, counted from the right, with `,` between
    them. -/
def groupThousands : List Char → List Char
  | [] => []
  | c :: rest =>
    if rest ≠ [] ∧ rest.length % 3 = 0 then c :: ',' :: groupThousands rest
    else c :: groupThousands rest

/-- Grouping adds nothing but separators. -/
theorem filter_groupThousands (digits : List Char) (h : ∀ c ∈ digits, c ≠ ',') :
    (groupThousands digits).filter (· ≠ ',') = digits := by
  induction digits with
  | nil => rfl
  | cons c rest ih =>
      have hc : decide (c ≠ ',') = true := decide_eq_true (h c List.mem_cons_self)
      have hrest : (groupThousands rest).filter (· ≠ ',') = rest :=
        ih fun d hd => h d (List.mem_cons_of_mem c hd)
      rw [groupThousands]
      split
      -- A separator between two groups is left out again.
      · rw [List.filter_cons, if_pos hc, List.filter_cons, if_neg (by decide), hrest]
      · rw [List.filter_cons, if_pos hc, hrest]

/-- The decimal numeral of an integer, with `-` in front of a negative one. -/
def signedDecimal (n : Int) : List Char :=
  if n < 0 then '-' :: decimal n.natAbs else decimal n.natAbs

end ReceiptPrinter.Number
