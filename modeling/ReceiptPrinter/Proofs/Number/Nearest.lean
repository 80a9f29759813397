import Mathlib.Algebra.Order.Archimedean.Basic
import Mathlib.Algebra.Order.Field.Power
import Mathlib.Tactic.FieldSimp
import Mathlib.Tactic.Linarith
import Mathlib.Tactic.NormNum
import Mathlib.Tactic.Positivity
import Mathlib.Tactic.Ring
import ReceiptPrinter.Number.Binary64

/-! # Nearest — rounding to a binary format

    A quotient is rounded to a multiple of its last bit, and the only question is
    which bit that is.  `IsLastBit` says what the choice has to satisfy: below it the
    significand would not fit, above it precision would be lost.  `lastBit_spec` finds
    that the bit which is chosen does satisfy this, and all else follows from it:

    * the result is the nearest of all numbers of the format (`near_of_nearest?`);
    * there is no result just if the quotient reaches half a unit past the greatest
      number (`nearest?_eq_none_iff`). -/

namespace ReceiptPrinter.Number

/-! ## Exact values -/

/-- The exact value of a magnitude. -/
def Magnitude.value (v : Magnitude) : ℚ :=
  v.significand * 2 ^ v.exponent

/-- A power of two with any exponent, as the two natural powers that stand for it. -/
theorem zpow_eq_div (e : Int) :
    (2 : ℚ) ^ e = ((2 ^ e.toNat : Nat) : ℚ) / ((2 ^ (-e).toNat : Nat) : ℚ) := by
  obtain ⟨n, rfl | rfl⟩ := e.eq_nat_or_neg
  · simp
  · simp

theorem Magnitude.value_eq (v : Magnitude) :
    v.value = (v.numerator : ℚ) / (v.denominator : ℚ) := by
  have hnumerator : (v.numerator : ℚ)
      = v.significand * ((2 ^ v.exponent.toNat : Nat) : ℚ) := Nat.cast_mul ..
  rw [value, zpow_eq_div, hnumerator, mul_div_assoc]
  rfl

/-! ## Rounding to whole numbers -/

section Rounding

variable (num : Nat) {den : Nat}

/-- Rounding moves a quotient by at most one half. -/
theorem abs_roundHalfEven_sub (hden : 0 < den) :
    |(roundHalfEven num den : ℚ) - num / den| ≤ 1 / 2 := by
  obtain ⟨hlow, hhigh⟩ := roundHalfEven_near num den hden
  have hpos : (0 : ℚ) < den := by exact_mod_cast hden
  have hcancel : (num : ℚ) / den * den = num := div_mul_cancel₀ _ hpos.ne'
  have hlow' : 2 * (num : ℚ) ≤ 2 * (roundHalfEven num den * den) + den := by exact_mod_cast hlow
  have hhigh' : 2 * ((roundHalfEven num den : ℚ) * den) ≤ 2 * num + den := by exact_mod_cast hhigh
  rw [abs_le]
  constructor <;> nlinarith

/-- No whole number is nearer to a quotient than the rounded one. -/
theorem abs_roundHalfEven_sub_le (hden : 0 < den) (k : Int) :
    |(roundHalfEven num den : ℚ) - num / den| ≤ |(k : ℚ) - num / den| := by
  have hnear := abs_roundHalfEven_sub num hden
  by_cases hk : k = roundHalfEven num den
  · rw [hk, Int.cast_natCast]
  · have hapart : (1 : ℚ) ≤ |(k : ℚ) - (roundHalfEven num den : ℚ)| := by
      have hint : (1 : Int) ≤ |k - (roundHalfEven num den : Int)| :=
        Int.one_le_abs (sub_ne_zero.mpr hk)
      exact_mod_cast hint
    have htriangle := abs_sub_le (k : ℚ) (num / den) (roundHalfEven num den)
    rw [abs_sub_comm (num / den : ℚ)] at htriangle
    linarith

/-- Half way between two whole numbers the even one is taken. -/
theorem even_roundHalfEven {k : Nat} (hden : 0 < den) (hhalf : (num : ℚ) / den = k + 1 / 2) :
    roundHalfEven num den % 2 = 0 := by
  have hpos : (0 : ℚ) < den := by exact_mod_cast hden
  have htwice : 2 * num = (2 * k + 1) * den := by
    rw [div_eq_iff hpos.ne'] at hhalf
    have hcast : (2 * num : ℚ) = (2 * k + 1) * den := by rw [hhalf]; ring
    exact_mod_cast hcast
  refine roundHalfEven_half num den ?_
  have hexpand : (2 * k + 1) * den = 2 * (den * k) + den := by ring
  have hsplit := Nat.div_add_mod num den
  have hmod := Nat.mod_lt num hden
  have hdiv : num / den = k := by
    refine Nat.div_eq_of_lt_le ?_ ?_
    · rw [Nat.mul_comm]; omega
    · rw [Nat.add_mul, Nat.one_mul, Nat.mul_comm k]; omega
  rw [hdiv] at hsplit
  omega

end Rounding

/-! ## Rounding to multiples of a bit -/

section Units

variable (num : Nat) {den : Nat} (e : Int)

theorem unitsAt_pos (hden : 0 < den) : 0 < den * Nat.pow 2 e.toNat :=
  Nat.mul_pos hden (Nat.two_pow_pos _)

/-- In units of a bit a quotient is divided by the value of the bit. -/
theorem scaled_quotient (hden : 0 < den) :
    ((num * Nat.pow 2 (-e).toNat : Nat) : ℚ) / ((den * Nat.pow 2 e.toNat : Nat) : ℚ)
      = num / den / 2 ^ e := by
  have hpos : (0 : ℚ) < den := by exact_mod_cast hden
  rw [zpow_eq_div e]
  simp only [Nat.pow_eq]
  push_cast
  field_simp

theorem abs_unitsAt_sub (hden : 0 < den) :
    |(unitsAt num den e : ℚ) * 2 ^ e - num / den| ≤ 2 ^ e / 2 := by
  have hbit : (0 : ℚ) < 2 ^ e := by positivity
  have hnear := abs_roundHalfEven_sub (num * Nat.pow 2 (-e).toNat) (unitsAt_pos e hden)
  rw [scaled_quotient num e hden] at hnear
  have hscale : (unitsAt num den e : ℚ) * 2 ^ e - num / den
      = ((unitsAt num den e : ℚ) - num / den / 2 ^ e) * 2 ^ e := by
    rw [sub_mul, div_mul_cancel₀ _ hbit.ne']
  rw [hscale, abs_mul, abs_of_pos hbit]
  calc |(unitsAt num den e : ℚ) - num / den / 2 ^ e| * 2 ^ e
      ≤ 1 / 2 * 2 ^ e := mul_le_mul_of_nonneg_right hnear hbit.le
    _ = 2 ^ e / 2 := by ring

/-- No multiple of the bit is nearer than the rounded one. -/
theorem abs_unitsAt_sub_le (hden : 0 < den) (k : Int) :
    |(unitsAt num den e : ℚ) * 2 ^ e - num / den| ≤ |(k : ℚ) * 2 ^ e - num / den| := by
  have hbit : (0 : ℚ) < 2 ^ e := by positivity
  have hnear := abs_roundHalfEven_sub_le (num * Nat.pow 2 (-e).toNat) (unitsAt_pos e hden) k
  rw [scaled_quotient num e hden] at hnear
  have hscale : ∀ y : ℚ, y * 2 ^ e - num / den = (y - num / den / 2 ^ e) * 2 ^ e := by
    intro y
    rw [sub_mul, div_mul_cancel₀ _ hbit.ne']
  rw [hscale, hscale, abs_mul, abs_mul]
  exact mul_le_mul_of_nonneg_right hnear (abs_nonneg _)

/-- Half way between two multiples of the bit the even one is taken. -/
theorem even_unitsAt {k : Nat} (hden : 0 < den)
    (hhalf : (num : ℚ) / den = (k + 1 / 2) * 2 ^ e) : unitsAt num den e % 2 = 0 := by
  have hbit : (0 : ℚ) < 2 ^ e := by positivity
  refine even_roundHalfEven _ (k := k) (unitsAt_pos e hden) ?_
  rw [scaled_quotient num e hden, hhalf, mul_div_cancel_right₀ _ hbit.ne']

end Units

/-! ## The last bit -/

namespace Precision

variable (p : Precision)

/-- A bit that a number near `x` can end in: the significand fits above it, and unless
    it is the least bit of the format it would not fit above the next one. -/
structure IsLastBit (x : ℚ) (e : Int) : Prop where
  least : p.least ≤ e
  fits : x < 2 ^ p.bits * 2 ^ e
  needed : e = p.least ∨ (2 ^ p.bits - 1 / 2) * 2 ^ (e - 1) ≤ x

/-- The bit that a quotient is rounded to. -/
def bitFor (num den : Nat) : Int :=
  let order : Int := Int.ofNat num.log2 - Int.ofNat den.log2
  let narrow := p.lastBit order
  if unitsAt num den narrow < Nat.pow 2 p.bits then narrow else p.lastBit (order + 1)

variable {p} {num den : Nat}

/-- The logarithms of a quotient's parts tell its size to within a factor of two. -/
theorem order_bounds (hnum : num ≠ 0) (hden : den ≠ 0) :
    (2 : ℚ) ^ ((num.log2 : Int) - den.log2 - 1) < num / den
      ∧ (num : ℚ) / den < 2 ^ ((num.log2 : Int) - den.log2 + 1) := by
  have hpos : (0 : ℚ) < den := by exact_mod_cast Nat.pos_of_ne_zero hden
  have hlow : (2 : ℚ) ^ (num.log2 : Int) ≤ num := by exact_mod_cast Nat.log2_self_le hnum
  have hhigh : (num : ℚ) < 2 ^ ((num.log2 : Int) + 1) := by
    exact_mod_cast Nat.lt_log2_self (n := num)
  have dlow : (2 : ℚ) ^ (den.log2 : Int) ≤ den := by exact_mod_cast Nat.log2_self_le hden
  have dhigh : (den : ℚ) < 2 ^ ((den.log2 : Int) + 1) := by
    exact_mod_cast Nat.lt_log2_self (n := den)
  have hbase : (2 : ℚ) ≠ 0 := two_ne_zero
  constructor
  · rw [lt_div_iff₀ hpos]
    calc (2 : ℚ) ^ ((num.log2 : Int) - den.log2 - 1) * den
        < 2 ^ ((num.log2 : Int) - den.log2 - 1) * 2 ^ ((den.log2 : Int) + 1) :=
          mul_lt_mul_of_pos_left dhigh (by positivity)
      _ = 2 ^ (num.log2 : Int) := by rw [← zpow_add₀ hbase]; congr 1; ring
      _ ≤ num := hlow
  · rw [div_lt_iff₀ hpos]
    calc (num : ℚ) < 2 ^ ((num.log2 : Int) + 1) := hhigh
      _ = 2 ^ ((num.log2 : Int) - den.log2 + 1) * 2 ^ (den.log2 : Int) := by
          rw [← zpow_add₀ hbase]; congr 1; ring
      _ ≤ 2 ^ ((num.log2 : Int) - den.log2 + 1) * den :=
          mul_le_mul_of_nonneg_left dlow (by positivity)

/-- A quotient below a power of two fits above the bit that the power leaves room
    for. -/
theorem fits_lastBit {x : ℚ} {order : Int} (h : x < 2 ^ order) :
    x < 2 ^ p.bits * 2 ^ p.lastBit order := by
  refine h.trans_le ?_
  rw [← zpow_natCast, ← zpow_add₀ two_ne_zero]
  refine zpow_le_zpow_right₀ one_le_two ?_
  rw [lastBit]
  omega

theorem bitFor_spec (hnum : num ≠ 0) (hden : 0 < den) :
    p.IsLastBit (num / den) (p.bitFor num den) := by
  obtain ⟨hlow, hhigh⟩ := order_bounds hnum hden.ne'
  rw [bitFor]
  dsimp only [Int.ofNat_eq_natCast]
  generalize (num.log2 : Int) - den.log2 = order at *
  have hnear := abs_unitsAt_sub num (p.lastBit order) hden
  rw [abs_le] at hnear
  split
  next hfits =>
    -- The significand fits above the narrower of the two bits.
    have hunits : (unitsAt num den (p.lastBit order) : ℚ) ≤ 2 ^ p.bits - 1 := by
      have hsucc : unitsAt num den (p.lastBit order) + 1 ≤ 2 ^ p.bits := hfits
      rw [le_sub_iff_add_le]
      exact_mod_cast hsucc
    have hbit : (0 : ℚ) < 2 ^ p.lastBit order := by positivity
    refine ⟨le_max_left _ _, ?_, ?_⟩
    · nlinarith
    · rcases max_choice p.least (order - p.bits) with hleast | hroom
      · exact .inl hleast
      · right
        have hpow : (2 : ℚ) ^ p.bits * 2 ^ (p.lastBit order - 1) = 2 ^ (order - 1) := by
          rw [← zpow_natCast, ← zpow_add₀ two_ne_zero, lastBit, hroom]
          congr 1
          ring
        have hhalf : (0 : ℚ) < 2 ^ (p.lastBit order - 1) := by positivity
        linarith
  next hlong =>
    -- The significand was too long for the narrower bit.
    have hunits : (2 : ℚ) ^ p.bits ≤ unitsAt num den (p.lastBit order) := by
      have hle : 2 ^ p.bits ≤ unitsAt num den (p.lastBit order) := Nat.le_of_not_lt hlong
      exact_mod_cast hle
    refine ⟨le_max_left _ _, fits_lastBit hhigh, ?_⟩
    rcases le_or_gt (order + 1 - p.bits) p.least with hleast | hroom
    · exact .inl (max_eq_left hleast)
    · right
      have hnext : p.lastBit (order + 1) - 1 = p.lastBit order := by
        rw [lastBit, lastBit]
        omega
      have hbit : (0 : ℚ) < 2 ^ p.lastBit order := by positivity
      rw [hnext]
      nlinarith

/-! ## The nearest number -/

/-- A number of a format, whatever its greatest exponent. -/
def Holds (p : Precision) (y : ℚ) : Prop :=
  ∃ (m : Nat) (k : Int), m < 2 ^ p.bits ∧ p.least ≤ k ∧ y = m * 2 ^ k

theorem unitsAt_le {e : Int} (hden : 0 < den) (h : p.IsLastBit (num / den) e) :
    unitsAt num den e ≤ 2 ^ p.bits := by
  have hbit : (0 : ℚ) < 2 ^ e := by positivity
  have hnear := abs_unitsAt_sub num e hden
  rw [abs_le] at hnear
  have hlt : (unitsAt num den e : ℚ) < (2 ^ p.bits + 1 : Nat) := by
    push_cast
    have := h.fits
    nlinarith
  have hlt' : unitsAt num den e < 2 ^ p.bits + 1 := by exact_mod_cast hlt
  omega

/-- **NO NUMBER OF THE FORMAT IS NEARER** than the multiple of the last bit. -/
theorem abs_sub_le_of_holds {e : Int} (hbits : 0 < p.bits) (hden : 0 < den)
    (h : p.IsLastBit (num / den) e) {y : ℚ} (hy : p.Holds y) :
    |(unitsAt num den e : ℚ) * 2 ^ e - num / den| ≤ |y - num / den| := by
  obtain ⟨m, k, hm, hk, rfl⟩ := hy
  by_cases hle : e ≤ k
  · -- Its bits lie above the last bit, so it is a multiple of it.
    have hmultiple : (m : ℚ) * 2 ^ k = ((m * 2 ^ (k - e).toNat : Nat) : Int) * 2 ^ e := by
      have hsplit : k = ((k - e).toNat : Int) + e := by omega
      conv_lhs => rw [hsplit, zpow_add₀ two_ne_zero, zpow_natCast]
      push_cast
      ring
    rw [hmultiple]
    exact abs_unitsAt_sub_le num e hden _
  · -- It ends in a lower bit, so it is below the power of two that is nearer.
    have hneeded := h.needed.resolve_left (by omega)
    have hhalf : (0 : ℚ) < 2 ^ (e - 1) := by positivity
    have htop : ((2 ^ (p.bits - 1) : Nat) : Int) * (2 : ℚ) ^ e = 2 ^ p.bits * 2 ^ (e - 1) := by
      push_cast
      rw [← zpow_natCast, ← zpow_natCast, ← zpow_add₀ two_ne_zero, ← zpow_add₀ two_ne_zero]
      congr 1
      omega
    have hy : (m : ℚ) * 2 ^ k ≤ (2 ^ p.bits - 1) * 2 ^ (e - 1) := by
      have hm' : (m : ℚ) ≤ 2 ^ p.bits - 1 := by
        rw [le_sub_iff_add_le]
        exact_mod_cast hm
      exact mul_le_mul hm' (zpow_le_zpow_right₀ one_le_two (by omega)) (by positivity)
        ((Nat.cast_nonneg m).trans hm')
    refine (abs_unitsAt_sub_le num e hden ((2 ^ (p.bits - 1) : Nat) : Int)).trans ?_
    rw [htop, abs_sub_comm ((m : ℚ) * 2 ^ k),
      abs_of_nonneg (by linarith : 0 ≤ (num : ℚ) / den - m * 2 ^ k), abs_le]
    constructor <;> linarith

theorem nearest?_eq (hnum : num ≠ 0) :
    p.nearest? num den
      = (let units := unitsAt num den (p.bitFor num den)
        let v : Magnitude := if units < 2 ^ p.bits then ⟨units, p.bitFor num den⟩
          else ⟨units / 2, p.bitFor num den + 1⟩
        if v.exponent ≤ p.greatest then some v else none) := by
  rw [nearest?, if_neg hnum]
  rfl

/-- The result is the multiple of the last bit, and a number of the format. -/
theorem value_of_nearest? (hbits : 0 < p.bits) (hnum : num ≠ 0) (hden : 0 < den) {v : Magnitude}
    (h : p.nearest? num den = some v) :
    v.value = unitsAt num den (p.bitFor num den) * 2 ^ p.bitFor num den ∧ p.Holds v.value := by
  have hbit := bitFor_spec (p := p) hnum hden
  have hle := unitsAt_le hden hbit
  rw [nearest?_eq hnum] at h
  dsimp only at h
  generalize p.bitFor num den = e at *
  generalize unitsAt num den e = units at *
  split at h
  next hlt =>
    split at h
    · cases h
      exact ⟨rfl, units, e, hlt, hbit.least, rfl⟩
    · cases h
  next hlong =>
    split at h
    · cases h
      -- A carry into one bit more leaves a power of two.
      have hpow : units = 2 ^ (p.bits - 1) * 2 := by
        rw [← Nat.pow_succ]
        have : p.bits - 1 + 1 = p.bits := by omega
        rw [Nat.succ_eq_add_one, this]
        omega
      have hhalf : units / 2 = 2 ^ (p.bits - 1) := by omega
      have hless : units / 2 < 2 ^ p.bits := by
        rw [hhalf]
        exact Nat.pow_lt_pow_right (by decide) (by omega)
      refine ⟨?_, units / 2, e + 1, hless, hbit.least.trans (by omega), rfl⟩
      rw [Magnitude.value, hhalf, hpow, zpow_add_one₀ two_ne_zero]
      push_cast
      ring
    · cases h

/-- **THE RESULT IS THE NEAREST NUMBER OF THE FORMAT.** -/
theorem near_of_nearest? (hbits : 0 < p.bits) (hden : 0 < den) {v : Magnitude}
    (h : p.nearest? num den = some v) :
    p.Holds v.value ∧ ∀ y, p.Holds y → |v.value - num / den| ≤ |y - num / den| := by
  by_cases hnum : num = 0
  · subst hnum
    cases h
    refine ⟨⟨0, p.least, by positivity, le_rfl, rfl⟩, fun y _ => ?_⟩
    simp [Magnitude.value]
  · obtain ⟨hvalue, hholds⟩ := value_of_nearest? hbits hnum hden h
    refine ⟨hholds, fun y hy => ?_⟩
    rw [hvalue]
    exact abs_sub_le_of_holds hbits hden (bitFor_spec hnum hden) hy

/-- A significand that fits is past the greatest number just if its bit is. -/
theorem greatest_lt_bit_iff {e : Int} (hbits : 0 < p.bits) (hrange : p.least ≤ p.greatest)
    (hden : 0 < den) (h : p.IsLastBit (num / den) e) (hfits : unitsAt num den e < 2 ^ p.bits) :
    p.greatest < e ↔ (2 ^ p.bits - 1 / 2) * 2 ^ p.greatest ≤ (num : ℚ) / den := by
  have hone : (1 : ℚ) ≤ 2 ^ p.bits := one_le_pow₀ one_le_two
  have hnear := abs_unitsAt_sub num e hden
  rw [abs_le] at hnear
  constructor
  · intro hlt
    have hneeded := h.needed.resolve_left (by omega)
    have hpow : (2 : ℚ) ^ p.greatest ≤ 2 ^ (e - 1) := zpow_le_zpow_right₀ one_le_two (by omega)
    exact (mul_le_mul_of_nonneg_left hpow (by linarith)).trans hneeded
  · intro hover
    by_contra hle
    -- The quotient would lie half way below a carry, and be rounded up to an even significand.
    have hpow : (2 : ℚ) ^ e ≤ 2 ^ p.greatest := zpow_le_zpow_right₀ one_le_two (by omega)
    have hscaled := mul_le_mul_of_nonneg_left hpow (by linarith : (0 : ℚ) ≤ 2 ^ p.bits - 1 / 2)
    have hbit : (0 : ℚ) < 2 ^ e := by positivity
    have hunits : (unitsAt num den e : ℚ) ≤ 2 ^ p.bits - 1 := by
      rw [le_sub_iff_add_le]
      exact_mod_cast hfits
    have hhalf : (num : ℚ) / den = ((2 ^ p.bits - 1 : Nat) + 1 / 2) * 2 ^ e := by
      rw [Nat.cast_sub Nat.one_le_two_pow]
      push_cast
      nlinarith
    have heven := even_unitsAt num e hden hhalf
    have hlast : (2 : ℚ) ^ p.bits - 1 ≤ unitsAt num den e := by
      rw [← mul_le_mul_iff_left₀ hbit]
      nlinarith
    have hlast' : 2 ^ p.bits ≤ unitsAt num den e + 1 := by
      rw [sub_le_iff_le_add] at hlast
      exact_mod_cast hlast
    have hpowEven : 2 ^ p.bits = 2 ^ (p.bits - 1) * 2 := by
      rw [← Nat.pow_succ]
      congr 1
      omega
    omega

/-- A significand that carries over is past the greatest number just if its bit is no
    lower than the last bit of that. -/
theorem greatest_le_bit_iff {e : Int} (hden : 0 < den) (h : p.IsLastBit (num / den) e)
    (hlong : 2 ^ p.bits ≤ unitsAt num den e) :
    p.greatest ≤ e ↔ (2 ^ p.bits - 1 / 2) * 2 ^ p.greatest ≤ (num : ℚ) / den := by
  have hone : (1 : ℚ) ≤ 2 ^ p.bits := one_le_pow₀ one_le_two
  constructor
  · intro hle
    have hnear := abs_unitsAt_sub num e hden
    rw [abs_le] at hnear
    have hbit : (0 : ℚ) < 2 ^ e := by positivity
    have hpow : (2 : ℚ) ^ p.greatest ≤ 2 ^ e := zpow_le_zpow_right₀ one_le_two hle
    have hunits : (2 : ℚ) ^ p.bits ≤ unitsAt num den e := by exact_mod_cast hlong
    have hscaled := mul_le_mul_of_nonneg_left hpow (by linarith : (0 : ℚ) ≤ 2 ^ p.bits - 1 / 2)
    nlinarith
  · intro hover
    by_contra hlt
    have hpow : (2 : ℚ) ^ e * 2 ≤ 2 ^ p.greatest := by
      rw [← zpow_add_one₀ two_ne_zero]
      exact zpow_le_zpow_right₀ one_le_two (by omega)
    have hbit : (0 : ℚ) < 2 ^ e := by positivity
    have hscaled := mul_le_mul_of_nonneg_left hpow (by linarith : (0 : ℚ) ≤ 2 ^ p.bits - 1 / 2)
    have hunit := mul_le_mul_of_nonneg_right hone hbit.le
    have hfits := h.fits
    linarith

/-- **THERE IS NO RESULT** just if the quotient is at least half a unit past the
    greatest number of the format. -/
theorem nearest?_eq_none_iff (hbits : 0 < p.bits) (hrange : p.least ≤ p.greatest)
    (hden : 0 < den) :
    p.nearest? num den = none ↔ (2 ^ p.bits - 1 / 2) * 2 ^ p.greatest ≤ (num : ℚ) / den := by
  by_cases hnum : num = 0
  · have hone : (1 : ℚ) ≤ 2 ^ p.bits := one_le_pow₀ one_le_two
    have hpos : (0 : ℚ) < (2 ^ p.bits - 1 / 2) * 2 ^ p.greatest :=
      mul_pos (by linarith) (by positivity)
    rw [nearest?, if_pos hnum, hnum, Nat.cast_zero, zero_div]
    exact iff_of_false nofun hpos.not_ge
  · have hbit := bitFor_spec (p := p) hnum hden
    rw [nearest?_eq hnum]
    dsimp only
    by_cases hfits : unitsAt num den (p.bitFor num den) < 2 ^ p.bits
    · rw [if_pos hfits, ← greatest_lt_bit_iff hbits hrange hden hbit hfits]
      simp
    · rw [if_neg hfits, ← greatest_le_bit_iff hden hbit (Nat.le_of_not_lt hfits)]
      simp only [ite_eq_right_iff, reduceCtorEq, imp_false, not_le]
      exact Int.lt_add_one_iff

end Precision

/-! ## Numbers of 64 bits -/

namespace Binary64

/-- A quotient is infinite as a number of 64 bits from half a unit past the greatest
    one on. -/
theorem ofQuotient_eq_infinite_iff (negative : Bool) (num : Nat) {den : Nat} (hden : 0 < den) :
    ofQuotient negative num den = .infinite negative
      ↔ (2 ^ 53 - 1 / 2) * 2 ^ 971 ≤ (num : ℚ) / den := by
  have hnone : Precision.double.nearest? num den = none
      ↔ (2 ^ 53 - 1 / 2) * 2 ^ 971 ≤ (num : ℚ) / den :=
    Precision.nearest?_eq_none_iff (by decide) (by decide) hden
  refine Iff.trans ?_ hnone
  rw [ofQuotient]
  split
  next v h => simp [h]
  next h => simp [h]

/-- Integers of 64 bits are far below the greatest number. -/
theorem exists_ofInt (n : Int64) :
    ∃ v, Precision.double.nearest? n.toInt.natAbs 1 = some v
      ∧ ofInt n.toInt = .finite (n.toInt < 0) v := by
  have hsmall : (n.toInt.natAbs : ℚ) ≤ 2 ^ 63 := by
    have hlow := n.le_toInt
    have hhigh := n.toInt_lt
    have hle : n.toInt.natAbs ≤ 2 ^ 63 := by omega
    exact_mod_cast hle
  have hsome : Precision.double.nearest? n.toInt.natAbs 1 ≠ none := by
    rw [ne_eq, Precision.nearest?_eq_none_iff (by decide) (by decide) Nat.one_pos, not_le,
      Nat.cast_one, div_one]
    calc (n.toInt.natAbs : ℚ) ≤ 2 ^ 63 := hsmall
      _ < 2 ^ 971 := pow_lt_pow_right₀ one_lt_two (by decide)
      _ ≤ (2 ^ 53 - 1 / 2) * 2 ^ 971 := le_mul_of_one_le_left (by positivity) (by norm_num)
  obtain ⟨v, hv⟩ := Option.ne_none_iff_exists'.mp hsome
  refine ⟨v, hv, ?_⟩
  rw [ofInt, ofQuotient, hv]

end Binary64

end ReceiptPrinter.Number
