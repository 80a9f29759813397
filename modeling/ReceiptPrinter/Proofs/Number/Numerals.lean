import Mathlib.Algebra.Field.Rat
import Mathlib.Algebra.Order.Ring.Rat
import Mathlib.Data.List.TakeWhile
import Mathlib.Tactic.FieldSimp
import Mathlib.Tactic.Ring
import ReceiptPrinter.Number.Fixed

/-! # Numerals — what written numbers are worth

    `worth` is the value of a row of digits in base ten and `numeralValue` that of
    a whole numeral: perhaps a sign, digits, and perhaps a point with more digits.
    Digits may be missing on either side of the point and are then worth nothing.

    The writers of this library put zeros in front of digits and take zeros away
    from either end.  What this does to the worth is said here once, so that later
    modules speak about values and never count places again.  A magnitude that is
    rounded to so many places shows its units of the last place
    (`Magnitude.worth_fixed`). -/

namespace ReceiptPrinter.Number

/-! ## Rows of digits -/

/-- Digits and nothing else. -/
def DigitsOnly (cs : List Char) : Prop :=
  ∀ c ∈ cs, c.isDigit = true

/-- Some digit is not zero. -/
def Significant (cs : List Char) : Prop :=
  ∃ c ∈ cs, c.isDigit = true ∧ c ≠ '0'

/-- What digits are worth in base ten. -/
def worth (digits : List Char) : Nat :=
  Nat.ofDigitChars 10 digits 0

theorem DigitsOnly.append {front back : List Char} (hf : DigitsOnly front)
    (hb : DigitsOnly back) : DigitsOnly (front ++ back) :=
  List.forall_mem_append.mpr ⟨hf, hb⟩

theorem digitsOnly_zeros (k : Nat) : DigitsOnly (List.replicate k '0') := by
  intro c hc
  rw [List.eq_of_mem_replicate hc]
  rfl

theorem DigitsOnly.not_mem {cs : List Char} (h : DigitsOnly cs) {c : Char}
    (hc : c.isDigit = false) : c ∉ cs := by
  intro hmem
  rw [h c hmem] at hc
  cases hc

theorem significant_append_iff (front back : List Char) :
    Significant (front ++ back) ↔ Significant front ∨ Significant back := by
  simp only [Significant, List.mem_append, or_and_right, exists_or]

theorem significant_cons_iff (c : Char) (cs : List Char) :
    Significant (c :: cs) ↔ (c.isDigit = true ∧ c ≠ '0') ∨ Significant cs := by
  simp only [Significant, List.mem_cons, or_and_right, exists_or, exists_eq_left]

/-- Signs, points and separators show no digit. -/
theorem significant_cons_of_not_digit {c : Char} (hc : c.isDigit = false) (cs : List Char) :
    Significant (c :: cs) ↔ Significant cs := by
  rw [significant_cons_iff, hc]
  simp

theorem hasNonzero_iff (cs : List Char) : hasNonzero cs = true ↔ Significant cs := by
  have hchar : ∀ c : Char, ('1' ≤ c ∧ c ≤ '9') ↔ (c.isDigit = true ∧ c ≠ '0') := by
    intro c
    rw [Char.isDigit_iff_toNat, ne_eq, ← Char.toNat_inj, Char.le_def, Char.le_def,
      UInt32.le_iff_toNat_le, UInt32.le_iff_toNat_le]
    simp only [Char.toNat_val, Char.reduceToNat]
    omega
  simp only [hasNonzero, List.any_eq_true, Bool.and_eq_true, decide_eq_true_eq, hchar, Significant]

/-! ## The worth of a row -/

theorem worth_append (front back : List Char) :
    worth (front ++ back) = 10 ^ back.length * worth front + worth back := by
  rw [worth, Nat.ofDigitChars_append, Nat.ofDigitChars_eq_ofDigitChars_zero]
  rfl

theorem worth_zeros (k : Nat) : worth (List.replicate k '0') = 0 := by
  rw [worth, Nat.ofDigitChars_replicate_zero, Nat.mul_zero]

/-- Zeros in front of digits are worth nothing. -/
theorem worth_zeros_append (k : Nat) (digits : List Char) :
    worth (List.replicate k '0' ++ digits) = worth digits := by
  rw [worth_append, worth_zeros, Nat.mul_zero, Nat.zero_add]

/-- A zero behind digits makes them worth ten times as much. -/
theorem worth_append_zeros (k : Nat) (digits : List Char) :
    worth (digits ++ List.replicate k '0') = 10 ^ k * worth digits := by
  rw [worth_append, worth_zeros, List.length_replicate, Nat.add_zero]

/-- Digits are worth nothing just if all of them are zeros. -/
theorem worth_eq_zero_iff {digits : List Char} (h : DigitsOnly digits) :
    worth digits = 0 ↔ ¬ Significant digits := by
  induction digits with
  | nil => simp [worth, Significant]
  | cons c rest ih =>
      obtain ⟨hc, hrest⟩ := List.forall_mem_cons.mp h
      have hcons : worth (c :: rest) = 10 ^ rest.length * (c.toNat - 48) + worth rest := by
        rw [worth, Nat.ofDigitChars_cons, Nat.ofDigitChars_eq_ofDigitChars_zero]
        simp [worth]
      have hzero : c.toNat - 48 = 0 ↔ c = '0' := by
        rw [Char.isDigit_iff_toNat] at hc
        rw [← Char.toNat_inj]
        simp only [Char.reduceToNat] at hc ⊢
        omega
      rw [hcons, Nat.add_eq_zero_iff, Nat.mul_eq_zero, ih hrest, hzero, significant_cons_iff]
      simp [hc]

/-! ## Decimals and their padding -/

theorem digitsOnly_decimal (n : Nat) : DigitsOnly (decimal n) :=
  fun _ hc => Nat.isDigit_of_mem_toDigits (by decide) (by decide) hc

theorem worth_decimal (n : Nat) : worth (decimal n) = n :=
  Nat.ofDigitChars_ten_toDigits

theorem digitsOnly_padZeros {width : Nat} {digits : List Char} (h : DigitsOnly digits) :
    DigitsOnly (padZeros width digits) :=
  (digitsOnly_zeros _).append h

theorem worth_padZeros (width : Nat) (digits : List Char) :
    worth (padZeros width digits) = worth digits :=
  worth_zeros_append _ _

/-- A decimal of at least two digits begins with another one than zero. -/
theorem head?_decimal {n : Nat} (hn : n ≠ 0) : (decimal n).head? ≠ some '0' := by
  induction n using Nat.strongRecOn with
  | ind n ih =>
      rw [decimal]
      by_cases hlt : n < 10
      · rw [Nat.toDigits_of_lt_base hlt, List.head?_cons, ne_eq, Option.some.injEq]
        intro h
        exact hn ((Nat.digitChar_eq_zero).mp h)
      · have hdiv : n / 10 ≠ 0 := by omega
        rw [Nat.toDigits_of_base_le (by decide) (by omega),
          List.head?_append_of_ne_nil _ Nat.toDigits_ne_nil]
        exact ih (n / 10) (by omega) hdiv

/-! ## Fixed point -/

namespace FixedPoint

/-- A number in fixed point that is written with digits only. -/
def Numeric (x : FixedPoint) : Prop :=
  DigitsOnly x.whole ∧ DigitsOnly x.fraction

/-- What a number in fixed point is worth: its units, each the tenth part of one for
    every place behind the point. -/
def value (x : FixedPoint) : ℚ :=
  worth (x.whole ++ x.fraction) / 10 ^ x.fraction.length

/-- The digits of a text in front of its point and behind it. -/
def ofChars (cs : List Char) : FixedPoint where
  whole := cs.takeWhile (· ≠ '.')
  fraction := (cs.dropWhile (· ≠ '.')).drop 1

theorem before_point {whole : List Char} (h : '.' ∉ whole) :
    ∀ c ∈ whole, decide (c ≠ '.') = true :=
  fun _ hc => decide_eq_true fun e => h (e ▸ hc)

theorem ofChars_append {whole : List Char} (h : '.' ∉ whole) (fraction : List Char) :
    ofChars (whole ++ '.' :: fraction) = ⟨whole, fraction⟩ := by
  simp only [ofChars, List.takeWhile_append_of_pos (before_point h),
    List.dropWhile_append_of_pos (before_point h)]
  simp

theorem ofChars_of_not_mem {whole : List Char} (h : '.' ∉ whole) : ofChars whole = ⟨whole, []⟩ := by
  simp only [ofChars, List.takeWhile_eq_self_iff.mpr (before_point h),
    List.dropWhile_eq_nil_iff.mpr (before_point h), List.drop_nil]

/-- The digits that were written are the digits that are found. -/
theorem ofChars_chars {x : FixedPoint} (h : '.' ∉ x.whole) : ofChars x.chars = x := by
  obtain ⟨whole, fraction⟩ := x
  rw [chars]
  split
  next hnil =>
    obtain rfl : fraction = [] := hnil
    exact ofChars_of_not_mem h
  next => exact ofChars_append h fraction

theorem nonzero_iff (x : FixedPoint) : x.nonzero = true ↔ Significant (x.whole ++ x.fraction) := by
  rw [nonzero, Bool.or_eq_true, hasNonzero_iff, hasNonzero_iff, significant_append_iff]

theorem significant_chars_iff (x : FixedPoint) :
    Significant x.chars ↔ Significant (x.whole ++ x.fraction) := by
  rw [chars]
  split
  next hnil => rw [hnil, List.append_nil]
  next => rw [significant_append_iff, significant_append_iff, significant_cons_of_not_digit rfl]

/-- A number that shows no digit other than zero is worth nothing. -/
theorem value_eq_zero {x : FixedPoint} (numeric : x.Numeric)
    (h : ¬ Significant (x.whole ++ x.fraction)) : x.value = 0 := by
  rw [value, (worth_eq_zero_iff (numeric.1.append numeric.2)).mpr h, Nat.cast_zero, zero_div]

/-- Fewer zeros at either end of a number do not change its value. -/
theorem value_eq_of_zeros {x y : FixedPoint} {k : Nat} (whole : worth y.whole = worth x.whole)
    (fraction : x.fraction = y.fraction ++ List.replicate k '0') : y.value = x.value := by
  have hunits : worth (x.whole ++ x.fraction) = 10 ^ k * worth (y.whole ++ y.fraction) := by
    rw [fraction, ← List.append_assoc, worth_append_zeros, worth_append, worth_append, whole]
  rw [value, value, hunits, fraction, List.length_append, List.length_replicate]
  push_cast
  rw [pow_add]
  field_simp

end FixedPoint

/-- A text with `-` in front of it or not. -/
def withSign (negative : Bool) (body : List Char) : List Char :=
  if negative then '-' :: body else body

theorem significant_withSign_iff (negative : Bool) (body : List Char) :
    Significant (withSign negative body) ↔ Significant body := by
  cases negative with
  | false => rfl
  | true => exact significant_cons_of_not_digit rfl body

/-- What a numeral is worth. -/
def numeralValue : List Char → ℚ
  | '-' :: cs => -(FixedPoint.ofChars cs).value
  | cs => (FixedPoint.ofChars cs).value

theorem FixedPoint.head?_chars {x : FixedPoint} (h : '-' ∉ x.whole) :
    x.chars.head? ≠ some '-' := by
  obtain ⟨whole, fraction⟩ := x
  rw [chars]
  intro hhead
  cases whole with
  | nil => split at hhead <;> cases hhead
  | cons c rest =>
      obtain rfl : c = '-' := by split at hhead <;> exact Option.some.inj hhead
      exact h List.mem_cons_self

/-- The sign of a text can be told from its first character. -/
theorem head?_withSign_iff (negative : Bool) {x : FixedPoint} (h : '-' ∉ x.whole) :
    (withSign negative x.chars).head? = some '-' ↔ negative = true := by
  cases negative with
  | true => exact iff_of_true rfl rfl
  | false => exact iff_of_false (FixedPoint.head?_chars h) Bool.false_ne_true

/-- A numeral is worth the number in fixed point that it was written for. -/
theorem numeralValue_withSign (negative : Bool) {x : FixedPoint} (h : DigitsOnly x.whole) :
    numeralValue (withSign negative x.chars) = if negative then -x.value else x.value := by
  cases negative with
  | true =>
      show -(FixedPoint.ofChars x.chars).value = -x.value
      rw [FixedPoint.ofChars_chars (h.not_mem rfl)]
  | false =>
      have hplain : numeralValue x.chars = (FixedPoint.ofChars x.chars).value := by
        rw [numeralValue.eq_def]
        split
        next cs hcs =>
          exact absurd (congrArg List.head? hcs) (FixedPoint.head?_chars (h.not_mem rfl))
        · rfl
      show numeralValue x.chars = x.value
      rw [hplain, FixedPoint.ofChars_chars (h.not_mem rfl)]

/-! ## Rounded magnitudes -/

namespace Magnitude

variable (v : Magnitude) (places : Nat)

theorem length_fraction_fixed : (v.fixed places).fraction.length = places := by
  show (if places = 0 then [] else padZeros places _).length = places
  split
  next h => rw [h, List.length_nil]
  next h =>
    rw [length_padZeros, max_eq_left]
    rw [decimal, Nat.length_toDigits_le_iff (by decide) (Nat.pos_of_ne_zero h)]
    exact Nat.mod_lt _ (Nat.pow_pos (by decide))

theorem numeric_fixed : (v.fixed places).Numeric := by
  refine ⟨digitsOnly_decimal _, ?_⟩
  show DigitsOnly (if places = 0 then [] else padZeros places _)
  split
  · exact fun _ hc => nomatch hc
  · exact digitsOnly_padZeros (digitsOnly_decimal _)

/-- All digits of a rounded magnitude together are worth its units. -/
theorem worth_fixed :
    worth ((v.fixed places).whole ++ (v.fixed places).fraction) = v.units places := by
  have hfraction : worth (v.fixed places).fraction = v.units places % 10 ^ places := by
    show worth (if places = 0 then [] else padZeros places _) = _
    split
    next h => rw [h, Nat.pow_zero, Nat.mod_one]; rfl
    next => rw [worth_padZeros, worth_decimal]; rfl
  have hwhole : worth (v.fixed places).whole = v.units places / 10 ^ places := worth_decimal _
  rw [worth_append, length_fraction_fixed, hwhole, hfraction, Nat.div_add_mod]

/-- A rounded magnitude shows a digit other than zero just if it has units. -/
theorem nonzero_fixed_iff : (v.fixed places).nonzero = true ↔ v.units places ≠ 0 := by
  obtain ⟨hwhole, hfraction⟩ := v.numeric_fixed places
  rw [FixedPoint.nonzero_iff, ← worth_fixed, ne_eq, worth_eq_zero_iff (hwhole.append hfraction),
    not_not]

/-- A magnitude rounds to zero just if it is at most half of the last place. -/
theorem units_eq_zero_iff :
    v.units places = 0 ↔ 2 * (v.numerator * 10 ^ places) ≤ v.denominator := by
  have hpos := v.denominator_pos
  have hnear := roundHalfEven_near (v.numerator * 10 ^ places) v.denominator hpos
  constructor
  · intro h
    have hround : roundHalfEven (v.numerator * 10 ^ places) v.denominator = 0 := h
    rw [hround] at hnear
    omega
  · intro h
    have hlt : v.numerator * 10 ^ places < v.denominator := by omega
    show roundHalfEven (v.numerator * 10 ^ places) v.denominator = 0
    rw [roundHalfEven, Nat.div_eq_of_lt hlt, Nat.mod_eq_of_lt hlt]
    split
    · rfl
    · rw [if_neg (by omega), if_pos rfl]

end Magnitude

end ReceiptPrinter.Number
