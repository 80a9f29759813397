import Mathlib.Data.List.Induction
import ReceiptPrinter.Proofs.Number.Numerals

/-! # Separators — digits in groups of three

    `Separated text digits` says where the separators of a text stand, counted from
    the right as a reader counts them.  The writer goes from the left and looks at
    how many digits are still to come; `separated_iff` says that the text it writes
    is the separated one, and the only one.

    A number with separators gets its sign last, and only if a digit other than zero
    is shown.  `Shows` says so of the whole text, for the formats that separate and
    for those that need not. -/

namespace ReceiptPrinter.Number

/-- A text that shows digits in groups of three, counted from the right, with one
    `,` between every two groups and none elsewhere. -/
inductive Separated : List Char → List Char → Prop
  | few {digits : List Char} (short : digits.length ≤ 3) : Separated digits digits
  | more {text digits : List Char} (a b c : Char) (front : Separated text digits)
      (nonempty : digits ≠ []) : Separated (text ++ [',', a, b, c]) (digits ++ [a, b, c])

/-- A text without its separators. -/
def unseparated (text : List Char) : List Char :=
  text.filter (· ≠ ',')

theorem groupThousands_of_short {digits : List Char} (short : digits.length ≤ 3) :
    groupThousands digits = digits := by
  induction digits with
  | nil => rfl
  | cons c rest ih =>
      have hlen : rest.length + 1 ≤ 3 := short
      rw [groupThousands, ih (by omega), if_neg]
      rintro ⟨hne, hmod⟩
      have := List.length_pos_of_ne_nil hne
      omega

/-- Three digits more are a group of their own. -/
theorem groupThousands_append (a b c : Char) {digits : List Char} (nonempty : digits ≠ []) :
    groupThousands (digits ++ [a, b, c]) = groupThousands digits ++ [',', a, b, c] := by
  induction digits with
  | nil => exact absurd rfl nonempty
  | cons d rest ih =>
      cases rest with
      | nil => simp [groupThousands]
      | cons e rest =>
          have hiff : ((e :: rest) ++ [a, b, c] ≠ [] ∧ ((e :: rest) ++ [a, b, c]).length % 3 = 0)
              ↔ (e :: rest ≠ [] ∧ (e :: rest).length % 3 = 0) := by
            simp only [List.cons_append, ne_eq, reduceCtorEq, not_false_eq_true, true_and,
              List.length_cons, List.length_append, List.length_nil]
            omega
          rw [List.cons_append, groupThousands, groupThousands, ih (List.cons_ne_nil e rest)]
          simp only [hiff]
          split <;> rfl

/-- **THE WRITER PUTS THE SEPARATORS WHERE THEY BELONG**, and this is the one place
    for each of them. -/
theorem separated_iff {text digits : List Char} :
    Separated text digits ↔ text = groupThousands digits := by
  constructor
  · intro h
    induction h with
    | few short => exact (groupThousands_of_short short).symm
    | more a b c front nonempty ih => rw [groupThousands_append a b c nonempty, ih]
  · rintro rfl
    induction hn : digits.length using Nat.strongRecOn generalizing digits with
    | ind n ih =>
        by_cases short : digits.length ≤ 3
        · rw [groupThousands_of_short short]
          exact .few short
        · -- More than three digits are a front and a last group.
          obtain ⟨front, last, rfl, hlast⟩ : ∃ front last, digits = front ++ last
              ∧ last.length = 3 :=
            ⟨digits.take (digits.length - 3), digits.drop (digits.length - 3),
              (List.take_append_drop _ _).symm, by rw [List.length_drop]; omega⟩
          obtain ⟨a, b, c, rfl⟩ := List.length_eq_three.mp hlast
          rw [List.length_append, hlast] at hn short
          have nonempty : front ≠ [] := by
            rintro rfl
            exact short (by simp)
          rw [groupThousands_append a b c nonempty]
          exact .more a b c (ih front.length (by omega) rfl) nonempty

theorem unseparated_append (front back : List Char) :
    unseparated (front ++ back) = unseparated front ++ unseparated back :=
  List.filter_append ..

theorem unseparated_cons {c : Char} (hc : c ≠ ',') (cs : List Char) :
    unseparated (c :: cs) = c :: unseparated cs :=
  List.filter_cons_of_pos (decide_eq_true hc)

theorem unseparated_of_digits {digits : List Char} (h : DigitsOnly digits) :
    unseparated digits = digits :=
  List.filter_eq_self.mpr fun _ hc => decide_eq_true fun e => h.not_mem rfl (e ▸ hc)

/-- Separators are all that a separated text has beside its digits. -/
theorem unseparated_groupThousands {digits : List Char} (h : DigitsOnly digits) :
    unseparated (groupThousands digits) = digits :=
  filter_groupThousands digits fun _ hc e => h.not_mem rfl (e ▸ hc)

theorem significant_unseparated_iff (text : List Char) :
    Significant (unseparated text) ↔ Significant text := by
  induction text with
  | nil => rfl
  | cons c rest ih =>
      by_cases hc : c = ','
      · rw [hc, significant_cons_of_not_digit rfl]
        exact ih
      · rw [unseparated_cons hc, significant_cons_iff, ih, significant_cons_iff]

/-! ## Texts of numbers -/

/-- The digits of a number with separators in front of the point, if they are asked
    for. -/
def FixedPoint.separate (grouped : Bool) (x : FixedPoint) : FixedPoint :=
  if grouped then { x with whole := groupThousands x.whole } else x

/-- The digits in front of the point with separators, if they are asked for. -/
def SeparatedIf (grouped : Bool) (text digits : List Char) : Prop :=
  if grouped then Separated text digits else text = digits

/-- A text that shows the digits of a number.  It has a `-` just if the number is
    negative and a digit other than zero is shown, and separators in front of the
    point just if they are asked for. -/
def Shows (negative grouped : Bool) (digits : FixedPoint) (text : List Char) : Prop :=
  ∃ minus whole, text = withSign minus (FixedPoint.chars ⟨whole, digits.fraction⟩)
    ∧ (minus = true ↔ negative = true ∧ Significant text)
    ∧ SeparatedIf grouped whole digits.whole

theorem SeparatedIf.unseparated_eq {grouped : Bool} {text digits : List Char}
    (h : SeparatedIf grouped text digits) (numeric : DigitsOnly digits) :
    unseparated text = digits := by
  cases grouped with
  | false => rw [show text = digits from h, unseparated_of_digits numeric]
  | true => rw [separated_iff.mp h, unseparated_groupThousands numeric]

namespace FixedPoint

theorem separate_eq (grouped : Bool) (x : FixedPoint) :
    x.separate grouped = ⟨(x.separate grouped).whole, x.fraction⟩ := by
  cases grouped <;> rfl

theorem separatedIf_separate (grouped : Bool) (x : FixedPoint) :
    SeparatedIf grouped (x.separate grouped).whole x.whole := by
  cases grouped with
  | false => exact rfl
  | true => exact separated_iff.mpr rfl

end FixedPoint

/-- Without its separators a text shows the bare digits. -/
theorem unseparated_chars {grouped : Bool} {whole : List Char} {digits : FixedPoint}
    (h : SeparatedIf grouped whole digits.whole) (numeric : digits.Numeric) :
    unseparated (FixedPoint.chars ⟨whole, digits.fraction⟩) = digits.chars := by
  have hwhole := h.unseparated_eq numeric.1
  by_cases hnil : digits.fraction = []
  · rw [FixedPoint.chars, FixedPoint.chars, if_pos hnil, if_pos hnil, hwhole]
  · rw [FixedPoint.chars, FixedPoint.chars, if_neg hnil, if_neg hnil, unseparated_append, hwhole,
      unseparated_cons (by decide), unseparated_of_digits numeric.2]

theorem unseparated_withSign {grouped : Bool} {whole : List Char} {digits : FixedPoint}
    (h : SeparatedIf grouped whole digits.whole) (numeric : digits.Numeric) (minus : Bool) :
    unseparated (withSign minus (FixedPoint.chars ⟨whole, digits.fraction⟩))
      = withSign minus digits.chars := by
  rw [← unseparated_chars h numeric]
  cases minus with
  | false => rfl
  | true => exact unseparated_cons (by decide) _

/-- A text shows a digit other than zero just if there is one among its digits. -/
theorem significant_separated_iff {grouped : Bool} {whole : List Char} {digits : FixedPoint}
    (h : SeparatedIf grouped whole digits.whole) (numeric : digits.Numeric) (minus : Bool) :
    Significant (withSign minus (FixedPoint.chars ⟨whole, digits.fraction⟩))
      ↔ Significant (digits.whole ++ digits.fraction) := by
  rw [significant_withSign_iff, ← significant_unseparated_iff, unseparated_chars h numeric,
    FixedPoint.significant_chars_iff]

/-- The sign that the writers put in front of digits is the sign that belongs there. -/
theorem shows_separate (negative grouped : Bool) {x : FixedPoint} (numeric : x.Numeric) :
    Shows negative grouped x
      (withSign (negative && x.nonzero) (x.separate grouped).chars) := by
  have hseparated := x.separatedIf_separate grouped
  refine ⟨negative && x.nonzero, (x.separate grouped).whole,
    congrArg _ (congrArg _ (x.separate_eq grouped)), ?_, hseparated⟩
  rw [x.separate_eq, significant_separated_iff hseparated numeric, Bool.and_eq_true,
    FixedPoint.nonzero_iff]

theorem unseparated_separate (grouped : Bool) {x : FixedPoint} (numeric : x.Numeric)
    (minus : Bool) :
    unseparated (withSign minus (x.separate grouped).chars) = withSign minus x.chars := by
  rw [x.separate_eq]
  exact unseparated_withSign (x.separatedIf_separate grouped) numeric minus

/-- **A TEXT IS WORTH THE DIGITS THAT IT SHOWS**, once the separators are taken out of
    it.  Where the sign is left out the number is zero. -/
theorem Shows.value {negative grouped : Bool} {digits : FixedPoint} {text : List Char}
    (h : Shows negative grouped digits text) (numeric : digits.Numeric) :
    numeralValue (unseparated text) = if negative then -digits.value else digits.value := by
  obtain ⟨minus, whole, rfl, hminus, hseparated⟩ := h
  rw [significant_separated_iff hseparated numeric] at hminus
  rw [unseparated_withSign hseparated numeric, numeralValue_withSign minus numeric.1]
  by_cases hsignificant : Significant (digits.whole ++ digits.fraction)
  · have hsame : minus = negative := by
      rw [Bool.eq_iff_iff, hminus, and_iff_left hsignificant]
    rw [hsame]
  · rw [FixedPoint.value_eq_zero numeric hsignificant]
    simp

end ReceiptPrinter.Number
