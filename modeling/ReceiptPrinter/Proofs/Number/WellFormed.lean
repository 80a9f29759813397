import ReceiptPrinter.Proofs.Number.Patterns

/-! # Well-formed numbers — what the text of a number looks like

    Whatever the format, a finite number is written as an optional sign, digits, and
    perhaps a point with more digits (`WellFormed`), with a percent sign behind it
    for percentages and for these alone.  The writers with separators and those of
    patterns go through `Shows` and so leave the sign off a zero.

    Two things escape them.  A percentage is a hundred times the number, which may be
    past the greatest number there is and then has no digits.  And the format `F`
    shows the sign of every negative number, also of one that is rounded to zero.
    `wellFormed_iff` says exactly when. -/

namespace ReceiptPrinter.Number

/-- The format of percentages, in either case of its letter. -/
def IsPercent (spec : String) : Prop :=
  spec.toList.head? = some 'P' ∨ spec.toList.head? = some 'p'

/-- What stands behind the digits of a number: ` %` for percentages only. -/
def EndsBy (spec : String) (tail : List Char) : Prop :=
  (tail = [' ', '%'] ∧ IsPercent spec) ∨ (tail = [] ∧ ¬ IsPercent spec)

/-- A text of a number: perhaps `-`, digits with or without separators, perhaps a point
    with digits behind it, and ` %` for percentages only.  In front of the point digits
    may be missing for a pattern. -/
def WellFormed (spec : String) (text : List Char) : Prop :=
  ∃ (minus grouped : Bool) (whole : List Char) (digits : FixedPoint) (tail : List Char),
    text = withSign minus (FixedPoint.chars ⟨whole, digits.fraction⟩) ++ tail
      ∧ digits.Numeric ∧ SeparatedIf grouped whole digits.whole
      ∧ (digits.whole = [] → ∃ front back, IsPattern spec.toList front back)
      ∧ EndsBy spec tail

/-- A zero with a sign. -/
def NegativeZero (text : List Char) : Prop :=
  text.head? = some '-' ∧ ¬ Significant text

/-- A hundred times a magnitude is past the greatest number of 64 bits, by half a unit
    or more. -/
def HundredfoldOverflows (v : Magnitude) : Prop :=
  (2 ^ 53 - 1 / 2) * 2 ^ 971 ≤ v.value * 100

/-! ## What is shown -/

/-- Digits and separators are all that stands in front of a point. -/
theorem SeparatedIf.not_mem {grouped : Bool} {text digits : List Char}
    (h : SeparatedIf grouped text digits) (numeric : DigitsOnly digits) {c : Char}
    (hdigit : c.isDigit = false) (hcomma : c ≠ ',') : c ∉ text := by
  intro hmem
  have hbare : c ∈ unseparated text := List.mem_filter.mpr ⟨hmem, decide_eq_true hcomma⟩
  rw [h.unseparated_eq numeric] at hbare
  exact numeric.not_mem hdigit hbare

theorem EndsBy.head?_ne {spec : String} {tail : List Char} (h : EndsBy spec tail) :
    tail.head? ≠ some '-' := by
  rcases h with ⟨rfl, -⟩ | ⟨rfl, -⟩ <;> decide

/-- A well-formed text has no `i`, so `inf` is none. -/
theorem WellFormed.letter_not_mem {spec : String} {text : List Char} (h : WellFormed spec text) :
    'i' ∉ text := by
  obtain ⟨minus, grouped, whole, digits, tail, rfl, numeric, hseparated, -, hends⟩ := h
  have hwhole : 'i' ∉ whole := hseparated.not_mem numeric.1 rfl (by decide)
  have hfraction : 'i' ∉ digits.fraction := numeric.2.not_mem rfl
  have hbody : 'i' ∉ FixedPoint.chars ⟨whole, digits.fraction⟩ := by
    rw [FixedPoint.chars]
    split
    · exact hwhole
    · simp [hwhole, hfraction]
  have hsigned : 'i' ∉ withSign minus (FixedPoint.chars ⟨whole, digits.fraction⟩) := by
    cases minus with
    | false => exact hbody
    | true => simp [withSign, hbody]
  rw [List.mem_append, not_or]
  refine ⟨hsigned, ?_⟩
  rcases hends with ⟨rfl, -⟩ | ⟨rfl, -⟩ <;> decide

/-- A text that shows digits is well formed, whatever stands behind it by its format. -/
theorem Shows.wellFormed {negative grouped : Bool} {digits : FixedPoint} {body tail : List Char}
    (h : Shows negative grouped digits body) (numeric : digits.Numeric) {spec : String}
    (empty : digits.whole = [] → ∃ front back, IsPattern spec.toList front back)
    (ends : EndsBy spec tail) : WellFormed spec (body ++ tail) := by
  obtain ⟨minus, whole, rfl, -, hseparated⟩ := h
  exact ⟨minus, grouped, whole, digits, tail, rfl, numeric, hseparated, empty, ends⟩

/-- **NO SIGN IS SHOWN FOR A ZERO** where a text shows digits. -/
theorem Shows.not_negativeZero {negative grouped : Bool} {digits : FixedPoint} {body : List Char}
    (h : Shows negative grouped digits body) (numeric : digits.Numeric) {tail : List Char}
    (behind : tail.head? ≠ some '-') : ¬ NegativeZero (body ++ tail) := by
  obtain ⟨minus, whole, rfl, hminus, hseparated⟩ := h
  rintro ⟨hhead, hzero⟩
  rw [significant_append_iff, not_or] at hzero
  rw [List.head?_append, Option.or_eq_some_iff] at hhead
  rcases hhead with hbody | ⟨-, htail⟩
  · have hsign := (head?_withSign_iff minus (hseparated.not_mem numeric.1 rfl (by decide))).mp hbody
    exact hzero.1 (hminus.mp hsign).2
  · exact behind htail

/-! ## The texts of a format -/

/-- The letter `P` describes the formats of percentages and no others. -/
theorem isPercent_iff {spec : String} {format : Format} (h : Format.read? spec = some format) :
    IsPercent spec ↔ ∃ places, format = .percent places := by
  constructor
  · intro hpercent
    obtain ⟨letter, rest, hspec, hletter⟩ : ∃ letter rest, spec.toList = letter :: rest
        ∧ (letter = 'P' ∨ letter = 'p') := by
      rcases hpercent with hhead | hhead
      · obtain ⟨rest, hspec⟩ := List.head?_eq_some_iff.mp hhead
        exact ⟨_, rest, hspec, .inl rfl⟩
      · obtain ⟨rest, hspec⟩ := List.head?_eq_some_iff.mp hhead
        exact ⟨_, rest, hspec, .inr rfl⟩
    rw [read?_of_letter (.percent hletter) hspec] at h
    obtain ⟨places, -, rfl⟩ := Option.map_eq_some_iff.mp h
    exact ⟨places, rfl⟩
  · rintro ⟨places, rfl⟩
    rcases Format.read?_eq_some_iff.mp h with
      ⟨letter, default, make, rest, n, hletter, hspec, -, hmake⟩ | ⟨front, back, -, hpattern⟩
    · cases hletter with
      | percent hl =>
          rw [IsPercent, hspec, List.head?_cons, Option.some.injEq, Option.some.injEq]
          exact hl
      | fixed | grouped | padded | upperHex | lowerHex => cases hmake
    · cases hpattern

/-- A format of patterns is described by a pattern. -/
theorem exists_isPattern {spec : String} {p : Pattern}
    (h : Format.read? spec = some (.pattern p)) :
    ∃ front back, IsPattern spec.toList front back := by
  rcases Format.read?_eq_some_iff.mp h with
    ⟨letter, default, make, rest, n, hletter, -, -, hmake⟩ | ⟨front, back, hpattern, -⟩
  · cases hletter <;> cases hmake
  · exact ⟨front, back, hpattern⟩

/-- How the text of a finite number comes about: by the format `F`, by a format that
    shows digits, or as a percentage that overflows. -/
inductive TextOf (spec : String) (negative : Bool) (v : Magnitude) : List Char → Prop
  | fixed {places : Nat} (reads : Format.read? spec = some (.fixed places)) :
      TextOf spec negative v (fixedText negative v places)
  | shown {format : Format} {grouped : Bool} {digits : FixedPoint} {body tail : List Char}
      (reads : Format.read? spec = some format) (other : ∀ places, format ≠ .fixed places)
      (shows : Shows negative grouped digits body) (numeric : digits.Numeric)
      (empty : digits.whole = [] → ∃ front back, IsPattern spec.toList front back)
      (ends : EndsBy spec tail) (fits : ¬ (IsPercent spec ∧ HundredfoldOverflows v)) :
      TextOf spec negative v (body ++ tail)
  | overflow {places : Nat} (reads : Format.read? spec = some (.percent places))
      (excess : HundredfoldOverflows v) : TextOf spec negative v ['i', 'n', 'f', ' ', '%']

theorem shows_groupedText (negative : Bool) (v : Magnitude) (places : Nat) :
    Shows negative true (v.fixed places) (groupedText negative v places) :=
  shows_separate negative true (v.numeric_fixed places)

theorem whole_fixed_ne_nil (v : Magnitude) (places : Nat) : (v.fixed places).whole ≠ [] :=
  Nat.toDigits_ne_nil

/-- A hundredfold is infinite just if it overflows. -/
theorem scale_hundred (negative : Bool) (v : Magnitude) :
    ((Binary64.finite negative v).scale 100 = .infinite negative ∧ HundredfoldOverflows v)
      ∨ ∃ w, (Binary64.finite negative v).scale 100 = .finite negative w
        ∧ ¬ HundredfoldOverflows v := by
  have hquotient : ((v.numerator * 100 : Nat) : ℚ) / (v.denominator : ℚ) = v.value * 100 := by
    rw [v.value_eq]
    push_cast
    ring
  have hiff := Binary64.ofQuotient_eq_infinite_iff negative (v.numerator * 100) v.denominator_pos
  rw [hquotient] at hiff
  show (Binary64.ofQuotient negative (v.numerator * 100) v.denominator = _ ∧ _) ∨ _
  by_cases hover : HundredfoldOverflows v
  · exact .inl ⟨hiff.mpr hover, hover⟩
  · right
    cases hsome : Precision.double.nearest? (v.numerator * 100) v.denominator with
    | none =>
        refine absurd (hiff.mp ?_) hover
        rw [Binary64.ofQuotient, hsome]
    | some w =>
        refine ⟨w, ?_, hover⟩
        show Binary64.ofQuotient negative (v.numerator * 100) v.denominator = _
        rw [Binary64.ofQuotient, hsome]

/-- **EVERY TEXT OF A FINITE NUMBER** comes about in one of these ways. -/
theorem textOf_of_formatFloat {negative : Bool} {v : Magnitude} {spec text : String}
    (h : formatFloat? (.finite negative v) spec = some text) :
    TextOf spec negative v text.toList := by
  rw [formatFloat?, Option.bind_eq_some_iff] at h
  obtain ⟨format, reads, happly⟩ := h
  obtain ⟨chars, hchars, rfl⟩ := Option.map_eq_some_iff.mp happly
  rw [String.toList_ofList]
  have hpercent := isPercent_iff reads
  cases format with
  | fixed places =>
      cases hchars
      exact .fixed reads
  | grouped places =>
      cases hchars
      have plain : ¬ IsPercent spec := by simp [hpercent]
      rw [← List.append_nil (groupedText negative v places)]
      exact .shown reads (by simp) (shows_groupedText negative v places) (v.numeric_fixed places)
        (fun hnil => absurd hnil (whole_fixed_ne_nil v places)) (.inr ⟨rfl, plain⟩)
        fun hp => plain hp.1
  | percent places =>
      cases hchars
      rcases scale_hundred negative v with ⟨hscale, hover⟩ | ⟨w, hscale, hfits⟩
      · rw [hscale]
        exact .overflow reads hover
      · rw [hscale]
        exact .shown reads (by simp) (shows_groupedText negative w places) (w.numeric_fixed places)
          (fun hnil => absurd hnil (whole_fixed_ne_nil w places))
          (.inl ⟨rfl, hpercent.mpr ⟨places, rfl⟩⟩) fun hp => hfits hp.2
  | pattern p =>
      cases hchars
      have plain : ¬ IsPercent spec := by simp [hpercent]
      rw [← List.append_nil (p.text negative v)]
      exact .shown reads (by simp) (shows_text p negative v) (p.numeric_fit (v.numeric_fixed _))
        (fun _ => exists_isPattern reads) (.inr ⟨rfl, plain⟩) fun hp => plain hp.1
  | padded | upperHex | lowerHex => cases hchars

/-- `F` shows a zero with a sign just if the number is negative and rounds to zero. -/
theorem negativeZero_fixedText_iff (negative : Bool) (v : Magnitude) (places : Nat) :
    NegativeZero (fixedText negative v places)
      ↔ negative = true ∧ 2 * (v.numerator * 10 ^ places) ≤ v.denominator := by
  have numeric := v.numeric_fixed places
  show (withSign negative (v.fixed places).chars).head? = some '-'
      ∧ ¬ Significant (withSign negative (v.fixed places).chars) ↔ _
  rw [head?_withSign_iff negative (numeric.1.not_mem rfl), significant_withSign_iff,
    FixedPoint.significant_chars_iff, ← FixedPoint.nonzero_iff, Magnitude.nonzero_fixed_iff,
    not_not, Magnitude.units_eq_zero_iff]

/-- **WHAT THE TEXT OF A FINITE NUMBER LOOKS LIKE.**  It is well formed unless it is a
    percentage that overflows, which is written `inf %`; and it is a zero with a sign
    just if the format is `F` and the number is negative and at most half of the last
    place that is shown. -/
theorem wellFormed_iff {negative : Bool} {v : Magnitude} {spec text : String}
    (h : formatFloat? (.finite negative v) spec = some text) :
    (WellFormed spec text.toList ↔ ¬ (IsPercent spec ∧ HundredfoldOverflows v))
      ∧ (IsPercent spec ∧ HundredfoldOverflows v → text = "inf %")
      ∧ (NegativeZero text.toList ↔ ∃ places, Format.read? spec = some (.fixed places)
          ∧ negative = true ∧ 2 * (v.numerator * 10 ^ places) ≤ v.denominator) := by
  have hways := textOf_of_formatFloat h
  generalize htext : text.toList = cs at hways
  cases hways with
  | @fixed places reads =>
      have plain : ¬ IsPercent spec := by simp [isPercent_iff reads]
      have hwell : WellFormed spec (fixedText negative v places) :=
        ⟨negative, false, _, v.fixed places, [], (List.append_nil _).symm, v.numeric_fixed places,
          rfl, fun hnil => absurd hnil (whole_fixed_ne_nil v places), .inr ⟨rfl, plain⟩⟩
      refine ⟨iff_of_true hwell fun hp => plain hp.1, fun hp => absurd hp.1 plain, ?_⟩
      rw [negativeZero_fixedText_iff, reads]
      simp
  | shown reads other shows numeric empty ends fits =>
      refine ⟨iff_of_true (shows.wellFormed numeric empty ends) fits, fun hp => absurd hp fits, ?_⟩
      refine iff_of_false (shows.not_negativeZero numeric ends.head?_ne) ?_
      rintro ⟨places, hfixed, -⟩
      exact other places (Option.some.inj (reads.symm.trans hfixed))
  | overflow reads excess =>
      have percent : IsPercent spec := (isPercent_iff reads).mpr ⟨_, rfl⟩
      refine ⟨iff_of_false (fun hwell => hwell.letter_not_mem List.mem_cons_self)
        fun hnot => hnot ⟨percent, excess⟩, fun _ => String.toList_inj.mp htext, ?_⟩
      refine iff_of_false (fun hzero => absurd hzero.1 (by decide)) ?_
      rintro ⟨places, hfixed, -⟩
      cases reads.symm.trans hfixed

/-- A hundred times the greatest number has no digits to show. -/
theorem not_wellFormed_greatestPercent :
    formatFloat? (.finite false ⟨2 ^ 53 - 1, 971⟩) "P0" = some "inf %"
      ∧ ¬ WellFormed "P0" "inf %".toList := by
  have hshown : formatFloat? (.finite false ⟨2 ^ 53 - 1, 971⟩) "P0" = some "inf %" := by
    decide +kernel
  have percent : IsPercent "P0" := .inl (by decide)
  have excess : HundredfoldOverflows ⟨2 ^ 53 - 1, 971⟩ := by
    have hbit : (0 : ℚ) < 2 ^ 971 := by positivity
    rw [HundredfoldOverflows, Magnitude.value, zpow_ofNat]
    push_cast
    generalize (2 : ℚ) ^ 971 = bit at *
    linarith
  exact ⟨hshown, fun hwell => (wellFormed_iff hshown).1.mp hwell ⟨percent, excess⟩⟩

/-- A thousandth below zero is shown as zero, and still with its sign. -/
theorem negativeZero_of_thousandth :
    formatFloat? (.finite true ⟨4611686018427388, -62⟩) "F2" = some "-0.00"
      ∧ NegativeZero "-0.00".toList :=
  ⟨by decide +kernel, by decide, by simp [Significant]⟩

end ReceiptPrinter.Number
