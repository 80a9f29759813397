import ReceiptPrinter.Proofs.Number.Nearest
import ReceiptPrinter.Proofs.Number.Separators
import ReceiptPrinter.Proofs.Number.Specs

/-! # Integers — which digits of an integer a fixed-point format shows

    Before it is written with decimal places an integer becomes a number of 64 bits.
    These hold 53 bits and zeros behind them (`HeldExactly`), so a longer integer is
    exchanged for the nearest one that they hold, and the digits that are written are
    the digits of that one (`digits_of_integer`). -/

namespace ReceiptPrinter.Number

/-- An integer that a number of 64 bits holds: at most 53 bits, with zeros behind
    them. -/
def HeldExactly (n : Int) : Prop :=
  ∃ m k : Nat, m < 2 ^ 53 ∧ n.natAbs = m * 2 ^ k

/-- One of the integers that are nearest to `n` among those that numbers of 64 bits
    hold. -/
def IsNearest (n r : Int) : Prop :=
  HeldExactly r ∧ ∀ s, HeldExactly s → |n - r| ≤ |n - s|

/-- The text of an integer with so many decimal places, all of them zero. -/
def integerText (n : Int) (places : Nat) : List Char :=
  FixedPoint.chars ⟨signedDecimal n, List.replicate places '0'⟩

/-- All digits of an integer are shown with so many decimal places, by `F` and, the
    separators apart, by `N`. -/
def KeepsDigits (n : Int64) (places : Nat) : Prop :=
  formatInt? n (letterSpec 'F' places) = some (String.ofList (integerText n.toInt places))
    ∧ ∃ text, formatInt? n (letterSpec 'N' places) = some text
      ∧ unseparated text.toList = integerText n.toInt places

/-! ## The nearest integer -/

theorem holds_of_heldExactly {n : Int} (h : HeldExactly n) :
    Precision.double.Holds (n.natAbs : ℚ) := by
  obtain ⟨m, k, hm, hn⟩ := h
  have hleast : Precision.double.least ≤ (k : Int) := by
    show (-1074 : Int) ≤ k
    omega
  refine ⟨m, k, hm, hleast, ?_⟩
  rw [hn, zpow_natCast]
  push_cast
  rfl

/-- A natural number of the format has its bits in front of the point. -/
theorem heldExactly_of_holds {r : Nat} (h : Precision.double.Holds (r : ℚ)) :
    HeldExactly (r : Int) := by
  obtain ⟨m, k, hm, -, hr⟩ := h
  rw [HeldExactly, Int.natAbs_natCast]
  obtain ⟨j, rfl | rfl⟩ := k.eq_nat_or_neg
  · refine ⟨m, j, hm, ?_⟩
    rw [zpow_natCast] at hr
    exact_mod_cast hr
  · -- Bits behind the point are all zero, so the number itself is short enough.
    refine ⟨r, 0, ?_, by simp⟩
    have hle : r ≤ m := by
      have hcast : (r : ℚ) * 2 ^ j = m := by
        rw [hr, zpow_neg, zpow_natCast]
        field_simp
      have hnat : r * 2 ^ j = m := by exact_mod_cast hcast
      rw [← hnat]
      exact Nat.le_mul_of_pos_right r (Nat.two_pow_pos j)
    exact lt_of_le_of_lt hle hm

/-- The number of 64 bits nearest to a natural number is a natural number. -/
theorem exists_natCast_value {n : Nat} {v : Magnitude}
    (h : Precision.double.nearest? n 1 = some v) : ∃ r : Nat, v.value = r := by
  by_cases hn : n = 0
  · subst hn
    cases h
    exact ⟨0, by simp [Magnitude.value]⟩
  · obtain ⟨hvalue, -⟩ := Precision.value_of_nearest? (by decide) hn Nat.one_pos h
    generalize Precision.double.bitFor n 1 = e at hvalue
    obtain ⟨j, rfl | rfl⟩ := e.eq_nat_or_neg
    · refine ⟨unitsAt n 1 j * 2 ^ j, ?_⟩
      rw [hvalue, zpow_natCast]
      push_cast
      rfl
    · -- The last bit lies behind the point, where the number itself is a multiple of it.
      refine ⟨n, ?_⟩
      have hmultiple : (((n * 2 ^ j : Nat) : Int) : ℚ) * 2 ^ (-(j : Int)) = n := by
        rw [zpow_neg, zpow_natCast]
        push_cast
        field_simp
      have hnear := abs_unitsAt_sub_le n (-(j : Int)) Nat.one_pos ((n * 2 ^ j : Nat) : Int)
      rw [hmultiple, Nat.cast_one, div_one, sub_self, abs_zero, ← hvalue] at hnear
      exact sub_eq_zero.mp (abs_nonpos_iff.mp hnear)

/-- The sign of an integer takes nothing from the nearness of sizes: another sign can
    only add to the distance. -/
theorem isNearest_of_natAbs {n : Int} {r : Nat} (held : HeldExactly r)
    (near : ∀ s, HeldExactly s → |(n.natAbs : Int) - r| ≤ |(n.natAbs : Int) - s.natAbs|) :
    IsNearest n (if n < 0 then -(r : Int) else r) := by
  constructor
  · obtain ⟨m, k, hm, hk⟩ := held
    refine ⟨m, k, hm, ?_⟩
    rw [← hk]
    split <;> simp
  · intro s hs
    refine le_trans (le_of_eq ?_) ((near s hs).trans ?_)
    · split
      · rw [show (n.natAbs : Int) = -n by omega, abs_sub_comm]
        congr 1
        ring
      · rw [show (n.natAbs : Int) = n by omega]
    · rw [Int.natCast_natAbs, Int.natCast_natAbs]
      exact abs_abs_sub_abs_le n s

/-- Only zero is nearest to zero, since one is held. -/
theorem eq_zero_of_near {n : Int}
    (near : ∀ s, HeldExactly s → |(n.natAbs : Int)| ≤ |(n.natAbs : Int) - s.natAbs|) : n = 0 := by
  by_contra hn
  have hone := near 1 ⟨1, 0, by decide, rfl⟩
  have hpos : 0 < n.natAbs := Int.natAbs_pos.mpr hn
  rw [Int.natAbs_one, abs_of_nonneg (by omega), abs_of_nonneg (by omega)] at hone
  omega

/-- **AN INTEGER BECOMES THE NEAREST ONE THAT IS HELD**, with the sign that it had. -/
theorem exists_nearest (n : Int64) :
    ∃ (v : Magnitude) (r : Nat), Binary64.ofInt n.toInt = .finite (n.toInt < 0) v
      ∧ v.value = r ∧ (r = 0 → n.toInt = 0)
      ∧ IsNearest n.toInt (if n.toInt < 0 then -(r : Int) else r) := by
  obtain ⟨v, hv, hfinite⟩ := Binary64.exists_ofInt n
  obtain ⟨r, hr⟩ := exists_natCast_value hv
  obtain ⟨hholds, hnear⟩ := Precision.near_of_nearest? (by decide) Nat.one_pos hv
  generalize n.toInt = n at *
  rw [hr] at hholds hnear
  have hsize : ∀ s, HeldExactly s → |(n.natAbs : Int) - r| ≤ |(n.natAbs : Int) - s.natAbs| := by
    intro s hs
    have hle := hnear _ (holds_of_heldExactly hs)
    rw [Nat.cast_one, div_one, abs_sub_comm, abs_sub_comm (s.natAbs : ℚ)] at hle
    exact_mod_cast hle
  refine ⟨v, r, hfinite, hr, ?_, isNearest_of_natAbs (heldExactly_of_holds hholds) hsize⟩
  rintro rfl
  refine eq_zero_of_near ?_
  simpa using hsize

/-- What is nearest to an integer is the integer itself just if it is held. -/
theorem IsNearest.eq_iff {n r : Int} (h : IsNearest n r) : r = n ↔ HeldExactly n := by
  constructor
  · rintro rfl
    exact h.1
  · intro hn
    have hle := h.2 n hn
    rw [sub_self, abs_zero] at hle
    exact (sub_eq_zero.mp (abs_nonpos_iff.mp hle)).symm

/-! ## The text of an integer -/

theorem units_of_natCast {v : Magnitude} {r : Nat} (h : v.value = r) (places : Nat) :
    v.units places = r * 10 ^ places := by
  have hnumerator : v.numerator = r * v.denominator := by
    have hpos : (0 : ℚ) < v.denominator := by exact_mod_cast v.denominator_pos
    rw [v.value_eq, div_eq_iff hpos.ne'] at h
    exact_mod_cast h
  have hexact : v.numerator * 10 ^ places = r * 10 ^ places * v.denominator := by
    rw [hnumerator, Nat.mul_right_comm]
  show roundHalfEven (v.numerator * 10 ^ places) v.denominator = _
  rw [hexact, roundHalfEven_mul _ _ v.denominator_pos]

/-- A magnitude whose value is a natural number has its digits, and zeros behind the
    point. -/
theorem fixed_of_natCast {v : Magnitude} {r : Nat} (h : v.value = r) (places : Nat) :
    v.fixed places = ⟨decimal r, List.replicate places '0'⟩ := by
  have hpow : 0 < 10 ^ places := Nat.pow_pos (by decide)
  rw [Magnitude.fixed, units_of_natCast h, FixedPoint.ofUnits]
  simp only [Nat.pow_eq, Nat.mul_div_cancel _ hpow, Nat.mul_mod_left]
  congr 1
  split
  next hzero => rw [hzero]; rfl
  next hne =>
    show List.replicate (places - 1) '0' ++ ['0'] = _
    rw [← List.replicate_succ']
    congr 1
    omega

theorem integerText_eq (n : Int) (places : Nat) :
    integerText n places
      = withSign (n < 0) (FixedPoint.chars ⟨decimal n.natAbs, List.replicate places '0'⟩) := by
  rw [integerText, signedDecimal, withSign, FixedPoint.chars, FixedPoint.chars]
  by_cases hn : n < 0 <;> by_cases hzero : List.replicate places '0' = [] <;> simp [hn, hzero]

/-- The text of an integer is worth the integer. -/
theorem numeralValue_integerText (n : Int) (places : Nat) :
    numeralValue (integerText n places) = n := by
  have hvalue : FixedPoint.value ⟨decimal n.natAbs, List.replicate places '0'⟩ = n.natAbs := by
    rw [FixedPoint.value, worth_append_zeros, worth_decimal, List.length_replicate]
    push_cast
    field_simp
  rw [integerText_eq, numeralValue_withSign _ (digitsOnly_decimal _), hvalue, Nat.cast_natAbs]
  by_cases hn : n < 0
  · rw [if_pos (decide_eq_true hn), abs_of_neg hn, Int.cast_neg, neg_neg]
  · rw [if_neg (by simpa using hn), abs_of_nonneg (by omega)]

theorem integerText_inj {n r : Int} {places : Nat}
    (h : integerText r places = integerText n places) : r = n := by
  have hvalue := congrArg numeralValue h
  rw [numeralValue_integerText, numeralValue_integerText] at hvalue
  exact_mod_cast hvalue

section Text

variable {n : Int} {v : Magnitude} {r : Nat} (hr : v.value = r) (hzero : r = 0 → n = 0)
  (places : Nat)
include hr hzero

/-- With the sign of the integer that it is nearest to, a magnitude has the text of an
    integer. -/
theorem withSign_fixed :
    withSign (n < 0) (v.fixed places).chars
      = integerText (if n < 0 then -(r : Int) else r) places := by
  rw [fixed_of_natCast hr places, integerText_eq]
  split
  next hn =>
    have hpos : 0 < r := Nat.pos_of_ne_zero fun hr => by rw [hzero hr] at hn; omega
    rw [Int.natAbs_neg, Int.natAbs_natCast, decide_eq_true hn, decide_eq_true (by omega)]
  next hn => rw [Int.natAbs_natCast, decide_eq_false hn, decide_eq_false (by omega)]

/-- No integer below zero becomes zero, so the sign is always shown. -/
theorem negative_and_nonzero :
    (decide (n < 0) && (v.fixed places).nonzero) = decide (n < 0) := by
  rw [Bool.and_eq_left_iff_imp, decide_eq_true_eq, Magnitude.nonzero_fixed_iff,
    units_of_natCast hr]
  intro hn hunits
  have hr : r = 0 := (Nat.mul_eq_zero.mp hunits).resolve_right (by positivity)
  rw [hzero hr] at hn
  omega

theorem unseparated_groupedText :
    unseparated (groupedText (n < 0) v places)
      = integerText (if n < 0 then -(r : Int) else r) places := by
  have hbare := unseparated_separate true (v.numeric_fixed places)
    (decide (n < 0) && (v.fixed places).nonzero)
  rw [← withSign_fixed hr hzero]
  exact hbare.trans (congrArg (withSign · _) (negative_and_nonzero hr hzero places))

end Text

/-- `F` and `N` write the integer that is held in the place of another one. -/
theorem exists_nearest_text (n : Int64) {places : Nat} (h : places ≤ 99) :
    ∃ r, IsNearest n.toInt r
      ∧ formatInt? n (letterSpec 'F' places) = some (String.ofList (integerText r places))
      ∧ ∃ text, formatInt? n (letterSpec 'N' places) = some text
        ∧ unseparated text.toList = integerText r places := by
  obtain ⟨v, r, hfinite, hr, hzero, hnearest⟩ := exists_nearest n
  refine ⟨_, hnearest, ?_, String.ofList (groupedText (n.toInt < 0) v places), ?_, ?_⟩
  · rw [formatInt?, read?_letterSpec (.fixed (.inl rfl)) h, ← withSign_fixed hr hzero]
    show ((Format.fixed places).applyToFloat? (.ofInt n.toInt)).map String.ofList = _
    rw [hfinite]
    rfl
  · rw [formatInt?, read?_letterSpec (.grouped (.inl rfl)) h]
    show ((Format.grouped places).applyToFloat? (.ofInt n.toInt)).map String.ofList = _
    rw [hfinite]
    rfl
  · rw [String.toList_ofList]
    exact unseparated_groupedText hr hzero places

/-- **WHICH DIGITS OF AN INTEGER ARE SHOWN.**  With any count of decimal places, by `F`
    and by `N`, an integer is written as the nearest one that numbers of 64 bits hold:
    all of its digits, followed by a point and as many zeros as there are places.  So
    the digits of an integer are kept just if these numbers hold it. -/
theorem digits_of_integer (n : Int64) {places : Nat} (h : places ≤ 99) :
    (∃ r, IsNearest n.toInt r
      ∧ formatInt? n (letterSpec 'F' places) = some (String.ofList (integerText r places))
      ∧ ∃ text, formatInt? n (letterSpec 'N' places) = some text
        ∧ unseparated text.toList = integerText r places)
      ∧ (KeepsDigits n places ↔ HeldExactly n.toInt) := by
  obtain ⟨r, hnearest, hfixed, htext⟩ := exists_nearest_text n h
  refine ⟨⟨r, hnearest, hfixed, htext⟩, ?_⟩
  rw [← hnearest.eq_iff]
  constructor
  · rintro ⟨hkept, -⟩
    rw [hfixed] at hkept
    exact integerText_inj (String.ofList_injective (Option.some.inj hkept))
  · intro hsame
    rw [hsame] at hfixed htext
    exact ⟨hfixed, htext⟩

/-- A power of two keeps its nineteen digits. -/
theorem keepsDigits_powerOfTwo :
    2 ≤ 99 ∧ HeldExactly (-4611686018427387904) ∧ KeepsDigits (-4611686018427387904) 2 := by
  have held : HeldExactly (-4611686018427387904) := ⟨1, 62, by decide, by decide⟩
  exact ⟨by decide, held, (digits_of_integer (-4611686018427387904) (by decide)).2.mpr held⟩

/-- The first integer of 54 bits that ends in a one loses its last digit. -/
theorem not_keepsDigits_longOdd : ¬ KeepsDigits 9007199254740993 2 := by
  rintro ⟨hfixed, -⟩
  have hshown : formatInt? 9007199254740993 (letterSpec 'F' 2) = some "9007199254740992.00" := by
    decide +kernel
  rw [hshown] at hfixed
  revert hfixed
  decide +kernel

end ReceiptPrinter.Number
