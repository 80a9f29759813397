import Mathlib.Data.List.DropRight
import ReceiptPrinter.Proofs.Number.Nearest
import ReceiptPrinter.Proofs.Number.Separators
import ReceiptPrinter.Proofs.Number.Specs

/-! # Patterns — numbers within the bounds of a pattern

    A pattern trims the rounded number at both ends: zeros in front are dropped and
    put back until the least count of digits is reached, zeros at the end are dropped
    down to the least count of places.  Trimming takes nothing but zeros
    (`exists_zeros_dropZerosTo`), so the value stays (`value_fit`); what it leaves
    keeps the bounds.  Separators and the sign come last and touch no digit.

    The format `N` is the pattern `#,##0` with as many `0` behind the point as it has
    places: there is nothing to trim then (`fit_fixed`). -/

namespace ReceiptPrinter.Number

/-! ## Trimming zeros -/

theorem exists_zeros_dropWhile (digits : List Char) :
    ∃ k, digits = List.replicate k '0' ++ digits.dropWhile (· == '0') := by
  refine ⟨(digits.takeWhile (· == '0')).length, ?_⟩
  have hzeros : digits.takeWhile (· == '0')
      = List.replicate (digits.takeWhile (· == '0')).length '0' :=
    List.eq_replicate_of_mem fun c hc => by
      have hzero := List.mem_takeWhile_imp hc
      exact beq_iff_eq.mp hzero
  rw [← hzeros, List.takeWhile_append_dropWhile]

theorem exists_zeros_dropZerosEnd (digits : List Char) :
    ∃ k, digits = dropZerosEnd digits ++ List.replicate k '0' := by
  obtain ⟨k, hk⟩ := exists_zeros_dropWhile digits.reverse
  refine ⟨k, ?_⟩
  have hreverse := congrArg List.reverse hk
  rwa [List.reverse_reverse, List.reverse_append, List.reverse_replicate] at hreverse

/-- Trimming takes nothing but zeros off the end. -/
theorem exists_zeros_dropZerosTo (least : Nat) (digits : List Char) :
    ∃ k, digits = dropZerosTo least digits ++ List.replicate k '0' := by
  obtain ⟨k, hk⟩ := exists_zeros_dropZerosEnd (digits.drop least)
  refine ⟨k, ?_⟩
  rw [dropZerosTo, List.append_assoc, ← hk, List.take_append_drop]

theorem le_length_dropZerosTo {least : Nat} {digits : List Char} (h : least ≤ digits.length) :
    least ≤ (dropZerosTo least digits).length := by
  rw [dropZerosTo, List.length_append, List.length_take, Nat.min_eq_left h]
  exact Nat.le_add_right least _

/-- Beyond the least count of digits no zero is left at the end. -/
theorem getLast?_dropZerosTo {least : Nat} {digits : List Char}
    (h : least < (dropZerosTo least digits).length) :
    (dropZerosTo least digits).getLast? ≠ some '0' := by
  rw [dropZerosTo] at h ⊢
  have hne : dropZerosEnd (digits.drop least) ≠ [] := by
    intro hnil
    rw [hnil, List.append_nil, List.length_take] at h
    omega
  rw [List.getLast?_append_of_ne_nil _ hne, List.getLast?_eq_some_getLast hne, ne_eq,
    Option.some.injEq]
  intro hzero
  have hnot := List.rdropWhile_last_not (· == '0') (digits.drop least) hne
  exact hnot (beq_iff_eq.mpr hzero)

/-- Beyond the least count of digits no zero is left in front. -/
theorem head?_padZeros {least : Nat} {digits : List Char}
    (h : least < (padZeros least (digits.dropWhile (· == '0'))).length) :
    (padZeros least (digits.dropWhile (· == '0'))).head? ≠ some '0' := by
  rw [length_padZeros] at h
  have hlen : least - (digits.dropWhile (· == '0')).length = 0 := by omega
  have hne : digits.dropWhile (· == '0') ≠ [] := by
    intro hnil
    rw [hnil, List.length_nil] at h
    omega
  rw [padZeros, hlen, List.replicate_zero, List.nil_append, List.head?_eq_some_head hne, ne_eq,
    Option.some.injEq]
  intro hzero
  have hnot := List.head_dropWhile_not (· == '0') hne
  rw [hzero] at hnot
  cases hnot

/-! ## Fitting a number to a pattern -/

namespace Pattern

variable (p : Pattern)

/-- **A PATTERN KEEPS THE VALUE** of the number that it is given. -/
theorem value_fit (x : FixedPoint) : (p.fit x).value = x.value := by
  obtain ⟨j, hj⟩ := exists_zeros_dropWhile x.whole
  obtain ⟨k, hk⟩ := exists_zeros_dropZerosTo p.minFraction x.fraction
  refine FixedPoint.value_eq_of_zeros ?_ hk
  show worth (padZeros p.minWhole (x.whole.dropWhile (· == '0'))) = worth x.whole
  rw [worth_padZeros]
  conv_rhs => rw [hj, worth_zeros_append]

theorem numeric_fit {x : FixedPoint} (h : x.Numeric) : (p.fit x).Numeric := by
  obtain ⟨hwhole, hfraction⟩ := h
  constructor
  · refine digitsOnly_padZeros fun c hc => hwhole c ?_
    exact (List.dropWhile_suffix _).subset hc
  · obtain ⟨k, hk⟩ := exists_zeros_dropZerosTo p.minFraction x.fraction
    intro c hc
    refine hfraction c ?_
    rw [hk]
    exact List.mem_append_left _ hc

end Pattern

/-- Digits that keep the bounds of a pattern, given by its places in front of the
    point and behind it: where more digits stand than there must be, none of them is
    a superfluous zero. -/
structure WithinPlaces (whole fraction : List Char) (x : FixedPoint) : Prop where
  least_whole : whole.count '0' ≤ x.whole.length
  bare_whole : whole.count '0' < x.whole.length → x.whole.head? ≠ some '0'
  least_fraction : fraction.count '0' ≤ x.fraction.length
  most_fraction : x.fraction.length ≤ fraction.count '0' + fraction.count '#'
  bare_fraction : fraction.count '0' < x.fraction.length → x.fraction.getLast? ≠ some '0'

/-- What is fitted to a pattern keeps its bounds. -/
theorem withinPlaces_fit (whole fraction : List Char) {x : FixedPoint}
    (h : x.fraction.length = fraction.count '0' + fraction.count '#') :
    WithinPlaces whole fraction ((Pattern.ofParts whole fraction).fit x) where
  least_whole := by
    show whole.count '0' ≤ (padZeros (whole.count '0') _).length
    rw [length_padZeros]
    exact Nat.le_max_left ..
  bare_whole := head?_padZeros
  least_fraction := by
    refine le_length_dropZerosTo (?_ : fraction.count '0' ≤ _)
    omega
  most_fraction := by
    obtain ⟨k, hk⟩ := exists_zeros_dropZerosTo (fraction.count '0') x.fraction
    have hlen := congrArg List.length hk
    rw [List.length_append] at hlen
    show (dropZerosTo (fraction.count '0') x.fraction).length ≤ _
    omega
  bare_fraction := getLast?_dropZerosTo

theorem Pattern.text_eq (p : Pattern) (negative : Bool) (v : Magnitude) :
    p.text negative v
      = withSign (negative && (p.fit (v.fixed p.maxFraction)).nonzero)
          ((p.fit (v.fixed p.maxFraction)).separate p.grouped).chars := rfl

theorem shows_text (p : Pattern) (negative : Bool) (v : Magnitude) :
    Shows negative p.grouped (p.fit (v.fixed p.maxFraction)) (p.text negative v) := by
  rw [Pattern.text_eq]
  exact shows_separate negative p.grouped (p.numeric_fit (v.numeric_fixed _))

theorem numeralValue_fixedText (negative : Bool) (v : Magnitude) (places : Nat) :
    numeralValue (fixedText negative v places)
      = if negative then -(v.fixed places).value else (v.fixed places).value :=
  numeralValue_withSign negative (v.numeric_fixed places).1

/-- **A PATTERN SHOWS THE ROUNDED NUMBER WITHIN ITS BOUNDS.**  Every number is written,
    as digits that are within the places of the pattern, with the sign and the
    separators that belong to them, and they are worth what the number is worth with
    as many decimal places as the pattern has behind its point. -/
theorem text_of_pattern {spec : String} {p : Pattern}
    (accepted : Pattern.read? spec.toList = some p) (negative : Bool) (v : Magnitude) :
    ∃ whole fraction, IsPattern spec.toList whole fraction
      ∧ ∃ text digits, formatFloat? (.finite negative v) spec = some text
        ∧ digits.Numeric ∧ WithinPlaces whole fraction digits
        ∧ Shows negative (whole.contains ',') digits text.toList
        ∧ numeralValue (unseparated text.toList)
          = numeralValue
              (fixedText negative v (fraction.count '0' + fraction.count '#')) := by
  obtain ⟨whole, fraction, hpattern, rfl⟩ := Pattern.read?_eq_some_iff.mp accepted
  let p := Pattern.ofParts whole fraction
  have numeric := p.numeric_fit (v.numeric_fixed p.maxFraction)
  have shows := shows_text p negative v
  refine ⟨whole, fraction, hpattern, String.ofList (p.text negative v),
    p.fit (v.fixed p.maxFraction), ?_, numeric, ?_, ?_, ?_⟩
  · rw [formatFloat?, read?_of_pattern hpattern]
    rfl
  · exact withinPlaces_fit whole fraction (v.length_fraction_fixed p.maxFraction)
  · rw [String.toList_ofList]
    exact shows
  · rw [String.toList_ofList, shows.value numeric, p.value_fit, numeralValue_fixedText]
    rfl

/-- With two decimal places, one of them required, `-1234.5` keeps to one. -/
theorem text_of_pattern_oneRequired :
    Pattern.read? "#,##0.0#".toList = some ⟨1, 1, 2, true⟩
      ∧ ∃ whole fraction, IsPattern "#,##0.0#".toList whole fraction
        ∧ ∃ text digits,
          formatFloat? (.finite true ⟨2469 * 2 ^ 41, -42⟩) "#,##0.0#" = some text
            ∧ digits.Numeric ∧ WithinPlaces whole fraction digits
            ∧ Shows true (whole.contains ',') digits text.toList
            ∧ numeralValue (unseparated text.toList)
              = numeralValue (fixedText true ⟨2469 * 2 ^ 41, -42⟩
                  (fraction.count '0' + fraction.count '#')) := by
  have accepted : Pattern.read? "#,##0.0#".toList = some ⟨1, 1, 2, true⟩ := by decide
  exact ⟨accepted, text_of_pattern accepted true ⟨2469 * 2 ^ 41, -42⟩⟩

example : formatFloat? (.finite true ⟨2469 * 2 ^ 41, -42⟩) "#,##0.0#" = some "-1,234.5" := by
  decide +kernel

/-! ## The pattern of the format `N` -/

/-- Where all decimal places are required there is nothing to trim. -/
theorem fit_fixed (v : Magnitude) (places : Nat) (grouped : Bool) :
    Pattern.fit ⟨1, places, places, grouped⟩ (v.fixed places) = v.fixed places := by
  have hwhole : ∀ n, padZeros 1 ((decimal n).dropWhile (· == '0')) = decimal n := by
    intro n
    by_cases hn : n = 0
    · rw [hn]
      rfl
    · obtain ⟨c, rest, hcs, -⟩ := (digits_decimal n).head
      have hhead := head?_decimal hn
      rw [hcs, List.head?_cons, ne_eq, Option.some.injEq] at hhead
      rw [hcs, List.dropWhile_cons_of_neg (by simpa using hhead), padZeros]
      simp
  have hfraction : dropZerosTo places (v.fixed places).fraction = (v.fixed places).fraction := by
    have hlen := v.length_fraction_fixed places
    rw [dropZerosTo, List.take_of_length_le (by omega), List.drop_of_length_le (by omega)]
    exact List.append_nil _
  rw [Pattern.fit, hfraction]
  congr 1
  exact hwhole _

/-- The pattern `#,##0` with so many places for digits behind a point, or without a
    point when there are none. -/
def thousandsPattern (places : Nat) : String :=
  String.ofList (FixedPoint.chars ⟨['#', ',', '#', '#', '0'], List.replicate places '0'⟩)

theorem isPattern_thousandsPattern (places : Nat) :
    IsPattern (thousandsPattern places).toList ['#', ',', '#', '#', '0']
      (List.replicate places '0') where
  text := by
    rw [thousandsPattern, String.toList_ofList, FixedPoint.chars]
    split
    next h => exact .inr ⟨rfl, h⟩
    next => exact .inl rfl
  places := by
    have hwhole : ∀ c ∈ ['#', ',', '#', '#', '0'], c = '0' ∨ c = '#' ∨ c = ',' := by simp
    exact List.forall_mem_append.mpr
      ⟨hwhole, fun c hc => .inl (List.eq_of_mem_replicate hc)⟩
  digit := ⟨'0', by simp, .inl rfl⟩

theorem ofParts_thousandsPattern (places : Nat) :
    Pattern.ofParts ['#', ',', '#', '#', '0'] (List.replicate places '0')
      = ⟨1, places, places, true⟩ := by
  have hzeros : (List.replicate places '0').count '0' = places := List.count_replicate_self
  have hhashes : (List.replicate places '0').count '#' = 0 := by
    rw [List.count_eq_zero]
    intro hmem
    exact absurd (List.eq_of_mem_replicate hmem) (by decide)
  rw [Pattern.ofParts, hzeros, hhashes]
  rfl

theorem text_thousandsPattern (negative : Bool) (v : Magnitude) (places : Nat) :
    Pattern.text ⟨1, places, places, true⟩ negative v = groupedText negative v places := by
  rw [Pattern.text_eq, fit_fixed]
  rfl

theorem read?_thousandsPattern (places : Nat) :
    Format.read? (thousandsPattern places) = some (.pattern ⟨1, places, places, true⟩) := by
  rw [read?_of_pattern (isPattern_thousandsPattern places), ofParts_thousandsPattern]

/-- Both formats do the same with every number, also with those that they refuse. -/
theorem applyToFloat?_grouped (places : Nat) (x : Binary64) :
    Format.applyToFloat? (.grouped places) x
      = Format.applyToFloat? (.pattern ⟨1, places, places, true⟩) x := by
  cases x with
  | finite negative v => exact congrArg some (text_thousandsPattern negative v places).symm
  | infinite negative => rfl
  | nan => rfl

/-- **THE FORMAT `N` IS THE PATTERN `#,##0`** with its places behind the point: both
    write every finite number and every integer, and they write the same. -/
theorem format_thousandsPattern {places : Nat} (h : places ≤ 99) :
    (∀ x, formatFloat? x (letterSpec 'N' places) = formatFloat? x (thousandsPattern places))
      ∧ (∀ n, formatInt? n (letterSpec 'N' places) = formatInt? n (thousandsPattern places))
      ∧ (∀ negative v, ∃ text,
          formatFloat? (.finite negative v) (letterSpec 'N' places) = some text)
      ∧ ∀ n, ∃ text, formatInt? n (letterSpec 'N' places) = some text := by
  have hletter := read?_letterSpec (.grouped (.inl rfl)) h
  have hpattern := read?_thousandsPattern places
  refine ⟨fun x => ?_, fun n => ?_, fun negative v => ?_, fun n => ?_⟩
  · rw [formatFloat?, formatFloat?, hletter, hpattern, Option.bind_some, Option.bind_some,
      applyToFloat?_grouped]
  · rw [formatInt?, formatInt?, hletter, hpattern, Option.bind_some, Option.bind_some]
    exact congrArg (Option.map String.ofList) (applyToFloat?_grouped places (.ofInt n.toInt))
  · rw [formatFloat?, hletter]
    exact ⟨_, rfl⟩
  · obtain ⟨v, -, hfinite⟩ := Binary64.exists_ofInt n
    rw [formatInt?, hletter]
    show ∃ text, ((Format.grouped places).applyToFloat? (.ofInt n.toInt)).map String.ofList
      = some text
    rw [hfinite]
    exact ⟨_, rfl⟩

/-- `N2` and `#,##0.00` write the same numbers in the same way. -/
theorem format_twoPlaces :
    2 ≤ 99 ∧ (∀ x, formatFloat? x "N2" = formatFloat? x "#,##0.00")
      ∧ (∀ n, formatInt? n "N2" = formatInt? n "#,##0.00")
      ∧ (∀ negative v, ∃ text, formatFloat? (.finite negative v) "N2" = some text)
      ∧ ∀ n, ∃ text, formatInt? n "N2" = some text := by
  have hletter : letterSpec 'N' 2 = "N2" := by decide
  have hpattern : thousandsPattern 2 = "#,##0.00" := by decide
  rw [← hletter, ← hpattern]
  exact ⟨by decide, format_thousandsPattern (by decide)⟩

end ReceiptPrinter.Number
