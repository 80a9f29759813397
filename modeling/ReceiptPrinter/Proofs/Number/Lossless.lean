import Mathlib.Data.Nat.Digits.Lemmas
import ReceiptPrinter.Proofs.Number.Specs

/-! # Lossless formats — integers that can be read back

    The formats `D`, `X` and `x` write an integer from its own digits and not by way
    of a floating point number.  `D` writes the integer with its sign in front; `X` and
    `x` write the number without sign that has the same 64 bits.

    A width puts zeros in front of the digits.  These are worth nothing, so what is
    read back does not depend on the width (`Digits.padZeros`, `readHexadecimal?_padded`).
    How many digits there are is counted by `digitCount`, from the number alone. -/

namespace ReceiptPrinter.Number

/-! ## Widths -/

/-- A width behind the letter of a format: a numeral of at most 99, perhaps with `+` in
    front of it, or nothing, which asks for no zeros. -/
inductive WidthText : List Char → Nat → Prop
  | missing : WidthText [] 0
  | plain {cs : List Char} {k : Nat} (digits : Digits cs k) (small : k ≤ 99) : WidthText cs k
  | plus {cs : List Char} {k : Nat} (digits : Digits cs k) (small : k ≤ 99) :
      WidthText ('+' :: cs) k

/-- The reader of formats accepts the widths, and reads them as they are meant. -/
theorem precision?_eq_some_iff {cs : List Char} {k : Nat} :
    precision? 0 cs = some k ↔ WidthText cs k := by
  constructor
  · intro h
    cases cs with
    | nil =>
        obtain rfl : 0 = k := Option.some.inj h
        exact .missing
    | cons c rest =>
        obtain ⟨hdigits | ⟨ds, hcs, hdigits⟩, hsmall⟩ := atMost?_eq_some_iff.mp h
        · exact .plain hdigits hsmall
        · rw [hcs]
          exact .plus hdigits hsmall
  · intro h
    cases h with
    | missing => rfl
    | plain digits small =>
        obtain ⟨c, rest, rfl, -⟩ := digits.head
        exact atMost?_eq_some_iff.mpr ⟨.inl digits, small⟩
    | plus digits small => exact atMost?_eq_some_iff.mpr ⟨.inr ⟨_, rfl, digits⟩, small⟩

/-! ## Counts of digits -/

/-- How many digits a number has in a base: as many as it takes, and one for zero. -/
def digitCount (base n : Nat) : Nat :=
  max 1 (Nat.digits base n).length

theorem length_toDigits {base : Nat} (hb : 1 < base) (n : Nat) :
    (Nat.toDigits base n).length = digitCount base n := by
  rw [digitCount]
  apply Nat.le_antisymm
  · rw [Nat.length_toDigits_le_iff hb (Nat.le_max_left 1 _), ← Nat.digits_length_le_iff hb]
    exact Nat.le_max_right ..
  · apply Nat.max_le.mpr
    constructor
    · exact Nat.length_toDigits_pos
    · rw [Nat.digits_length_le_iff hb, ← Nat.length_toDigits_le_iff hb Nat.length_toDigits_pos]

/-! ## Decimals -/

/-- A zero in front of digits changes nothing. -/
theorem Digits.cons_zero {cs : List Char} {n : Nat} (h : Digits cs n) : Digits ('0' :: cs) n := by
  induction h with
  | one last =>
      have hzero : Digits ['0'] 0 := .one ⟨by decide, rfl⟩
      have hmore := hzero.more last
      rwa [Nat.mul_zero, Nat.zero_add] at hmore
  | more front last ih => exact ih.more last

theorem Digits.padZeros {cs : List Char} {n : Nat} (h : Digits cs n) (width : Nat) :
    Digits (padZeros width cs) n := by
  have hzeros : ∀ k, Digits (List.replicate k '0' ++ cs) n := by
    intro k
    induction k with
    | zero => exact h
    | succ k ih => exact ih.cons_zero
  exact hzeros _

/-- What `D` writes: the sign, zeros up to the width, and the digits of the size. -/
theorem paddedText_eq (n : Int64) (width : Nat) :
    paddedText n width
      = withSign (decide (n.toInt < 0)) (padZeros width (decimal n.toInt.natAbs)) := by
  rw [paddedText, withSign]
  simp only [decide_eq_true_eq]

/-- A padded integer is read as the integer. -/
theorem signed?_paddedText (n : Int64) (width : Nat) :
    signed? (paddedText n width) = some n.toInt := by
  rw [signed?_eq_some_iff, paddedText_eq]
  have hdigits := (digits_decimal n.toInt.natAbs).padZeros width
  by_cases hneg : n.toInt < 0
  · have hminus := Decimal.minus hdigits
    rw [show -(n.toInt.natAbs : Int) = n.toInt by omega] at hminus
    rwa [decide_eq_true hneg]
  · have hplain := Decimal.plain hdigits
    rw [show (n.toInt.natAbs : Int) = n.toInt by omega] at hplain
    rwa [decide_eq_false hneg]

theorem length_padZeros_decimal (width n : Nat) :
    (padZeros width (decimal n)).length = max width (digitCount 10 n) := by
  rw [length_padZeros, decimal, length_toDigits (by decide)]

/-! ## Hexadecimal numerals -/

/-- What a hexadecimal digit is worth; its letter may be in either case. -/
def hexDigit? (c : Char) : Option Nat :=
  if '0' ≤ c ∧ c ≤ '9' then some (c.toNat - 48)
  else if 'a' ≤ c ∧ c ≤ 'f' then some (c.toNat - 87)
  else if 'A' ≤ c ∧ c ≤ 'F' then some (c.toNat - 55)
  else none

/-- What hexadecimal digits are worth behind those of `n`. -/
def hexOnto? (n : Nat) (digits : List Char) : Option Nat :=
  digits.foldlM (fun n c => (hexDigit? c).map (16 * n + ·)) n

/-- Reads a hexadecimal numeral without sign: at least one digit, and nothing else. -/
def readHexadecimal? : List Char → Option Nat
  | [] => none
  | digits => hexOnto? 0 digits

/-- A spelling of the sixteen digits that the reader knows. -/
def SpellsDigits (spell : Char → Char) : Prop :=
  ∀ d < 16, hexDigit? (spell d.digitChar) = some d

theorem spellsDigits_id : SpellsDigits id := by
  unfold SpellsDigits
  decide

theorem spellsDigits_toUpper : SpellsDigits Char.toUpper := by
  unfold SpellsDigits
  decide

theorem hexOnto?_append (n : Nat) (front back : List Char) :
    hexOnto? n (front ++ back) = (hexOnto? n front).bind (hexOnto? · back) :=
  List.foldlM_append

theorem hexOnto?_singleton (n : Nat) (c : Char) :
    hexOnto? n [c] = (hexDigit? c).map (16 * n + ·) := by
  cases h : hexDigit? c <;> simp [hexOnto?, h]

theorem hexOnto?_zeros (k : Nat) : hexOnto? 0 (List.replicate k '0') = some 0 := by
  induction k with
  | zero => rfl
  | succ k ih => exact ih

/-- The digits of a number are worth the number, however they are spelled. -/
theorem hexOnto?_toDigits {spell : Char → Char} (h : SpellsDigits spell) (n : Nat) :
    hexOnto? 0 ((Nat.toDigits 16 n).map spell) = some n := by
  induction n using Nat.strongRecOn with
  | ind n ih =>
      by_cases hlt : n < 16
      · rw [Nat.toDigits_of_lt_base hlt, List.map_singleton, hexOnto?_singleton, h n hlt]
        simp
      · rw [Nat.toDigits_of_base_le (by decide) (by omega), List.map_append, hexOnto?_append,
          ih (n / 16) (by omega), List.map_singleton, Option.bind_some, hexOnto?_singleton,
          h _ (Nat.mod_lt n (by decide)), Option.map_some, Nat.div_add_mod]

/-- A padded hexadecimal numeral is read as its number. -/
theorem readHexadecimal?_padded {spell : Char → Char} (h : SpellsDigits spell) (width n : Nat) :
    readHexadecimal? (padZeros width ((Nat.toDigits 16 n).map spell)) = some n := by
  have hread : hexOnto? 0 (padZeros width ((Nat.toDigits 16 n).map spell)) = some n := by
    rw [padZeros, hexOnto?_append, hexOnto?_zeros, Option.bind_some, hexOnto?_toDigits h]
  have hne : padZeros width ((Nat.toDigits 16 n).map spell) ≠ [] := by
    simp [padZeros]
  obtain ⟨c, rest, hcs⟩ := List.exists_cons_of_ne_nil hne
  rw [hcs] at hread ⊢
  exact hread

theorem length_padZeros_hexadecimal (spell : Char → Char) (width n : Nat) :
    (padZeros width ((Nat.toDigits 16 n).map spell)).length = max width (digitCount 16 n) := by
  rw [length_padZeros, List.length_map, length_toDigits (by decide)]

/-- The 64 bits of an integer are those of its remainder. -/
theorem toNat_toUInt64 (n : Int64) : n.toUInt64.toNat = (n.toInt % 2 ^ 64).toNat := by
  have hbits : n.toInt = Int.bmod n.toUInt64.toNat (2 ^ 64) := BitVec.toInt_eq_toNat_bmod _
  have hlt : (n.toUInt64.toNat : Int) < (2 ^ 64 : Nat) := Int.ofNat_lt.mpr n.toUInt64.toNat_lt
  rw [hbits, show (2 ^ 64 : Int) = (2 ^ 64 : Nat) from rfl, Int.bmod_emod,
    Int.emod_eq_of_lt (Int.natCast_nonneg _) hlt, Int.toNat_natCast]

/-! ## Formats -/

/-- What the formats `X` and `x` write, in one: the bits of an integer as a padded
    numeral in some spelling of the digits. -/
theorem exists_hexadecimal {letter : Char} (h : letter = 'X' ∨ letter = 'x') (n : Int64)
    {width : List Char} {k : Nat} (hwidth : WidthText width k) :
    ∃ spell, SpellsDigits spell ∧
      formatInt? n (String.ofList (letter :: width)) = some (String.ofList
        (padZeros k ((Nat.toDigits 16 n.toUInt64.toNat).map spell))) := by
  have hread := precision?_eq_some_iff.mpr hwidth
  rcases h with rfl | rfl
  · refine ⟨Char.toUpper, spellsDigits_toUpper, ?_⟩
    rw [formatInt?, read?_of_letter .upperHex String.toList_ofList, hread]
    rfl
  · refine ⟨id, spellsDigits_id, ?_⟩
    rw [formatInt?, read?_of_letter .lowerHex String.toList_ofList, hread, List.map_id]
    rfl

/-- **INTEGERS ARE WRITTEN WITHOUT LOSS.**  With any width, `D` writes digits of every
    integer, with `-` in front of a negative one, that are read as the integer; `X` and
    `x` write hexadecimal digits that are read as the integer modulo `2 ^ 64`.  Each
    writes as many digits as the number takes, or as the width asks for if these are
    more. -/
theorem readBack_of_integerFormats (n : Int64) {width : List Char} {k : Nat}
    (h : WidthText width k) :
    (∀ letter, letter = 'D' ∨ letter = 'd' → ∃ digits,
        formatInt? n (String.ofList (letter :: width))
            = some (String.ofList (withSign (decide (n.toInt < 0)) digits))
          ∧ signed? (withSign (decide (n.toInt < 0)) digits) = some n.toInt
          ∧ DigitsOnly digits ∧ digits.length = max k (digitCount 10 n.toInt.natAbs))
      ∧ ∀ letter, letter = 'X' ∨ letter = 'x' → ∃ digits,
        formatInt? n (String.ofList (letter :: width)) = some (String.ofList digits)
          ∧ readHexadecimal? digits = some (n.toInt % 2 ^ 64).toNat
          ∧ digits.length = max k (digitCount 16 (n.toInt % 2 ^ 64).toNat) := by
  constructor
  · intro letter hletter
    refine ⟨padZeros k (decimal n.toInt.natAbs), ?_, ?_, ?_, length_padZeros_decimal ..⟩
    · rw [← paddedText_eq, formatInt?,
        read?_of_letter (.padded hletter) String.toList_ofList, precision?_eq_some_iff.mpr h]
      rfl
    · rw [← paddedText_eq, signed?_paddedText]
    · exact digitsOnly_padZeros (digitsOnly_decimal _)
  · intro letter hletter
    obtain ⟨spell, hspell, hformat⟩ := exists_hexadecimal hletter n h
    rw [← toNat_toUInt64]
    exact ⟨_, hformat, readHexadecimal?_padded hspell .., length_padZeros_hexadecimal ..⟩

/-- The least integer has nineteen digits and a sign, or sixteen digits for its bits;
    a width of twenty fills both up. -/
theorem readBack_leastInteger :
    WidthText ['2', '0'] 20
      ∧ (∃ digits, formatInt? Int64.minValue "D20" = some (String.ofList ('-' :: digits))
          ∧ signed? ('-' :: digits) = some (-9223372036854775808)
          ∧ DigitsOnly digits ∧ digits.length = 20)
      ∧ ∃ digits, formatInt? Int64.minValue "X20" = some (String.ofList digits)
          ∧ readHexadecimal? digits = some 9223372036854775808 ∧ digits.length = 20 := by
  have hwidth : WidthText ['2', '0'] 20 := precision?_eq_some_iff.mp (by decide)
  obtain ⟨hdecimal, hbits⟩ := readBack_of_integerFormats Int64.minValue hwidth
  refine ⟨hwidth, ?_, ?_⟩
  · obtain ⟨digits, hformat, hread, honly, hlength⟩ := hdecimal 'D' (.inl rfl)
    rw [← length_toDigits (by decide)] at hlength
    exact ⟨digits, hformat, hread, honly, hlength⟩
  · obtain ⟨digits, hformat, hread, hlength⟩ := hbits 'X' (.inl rfl)
    rw [← length_toDigits (by decide)] at hlength
    exact ⟨digits, hformat, hread, hlength⟩

end ReceiptPrinter.Number
