/-! # Rounding — the whole number nearest to a quotient

    The one rounding of the library: to the nearest whole number, a half to the even
    neighbour.  The lemmas say that it moves a quotient by at most a half and leaves
    a whole one alone. -/

namespace ReceiptPrinter.Number

/-- A quotient rounded to the nearest whole number; a half goes to the even
    neighbour. -/
def roundHalfEven (num den : Nat) : Nat :=
  let q := num / den
  let r := num % den
  if 2 * r < den then q
  else if den < 2 * r then q + 1
  else if q % 2 = 0 then q
  else q + 1

/-- A quotient without remainder is its own rounding. -/
theorem roundHalfEven_mul (q den : Nat) (h : 0 < den) : roundHalfEven (q * den) den = q := by
  simp [roundHalfEven, Nat.mul_div_cancel q h, h]

/-- Rounding moves a quotient by at most one half. -/
theorem roundHalfEven_near (num den : Nat) (h : 0 < den) :
    2 * num ≤ 2 * (roundHalfEven num den * den) + den ∧
      2 * (roundHalfEven num den * den) ≤ 2 * num + den := by
  have split := Nat.div_add_mod num den
  have small := Nat.mod_lt num h
  have step : (num / den + 1) * den = den * (num / den) + den := by
    rw [Nat.add_mul, Nat.mul_comm, Nat.one_mul]
  have same : num / den * den = den * (num / den) := Nat.mul_comm ..
  unfold roundHalfEven
  dsimp only
  split
  · omega
  · split
    · omega
    · split <;> omega

/-- On an exact half the result is even. -/
theorem roundHalfEven_half (num den : Nat) (h : 2 * (num % den) = den) :
    roundHalfEven num den % 2 = 0 := by
  unfold roundHalfEven
  dsimp only
  split
  · omega
  · split
    · omega
    · split <;> omega

end ReceiptPrinter.Number
