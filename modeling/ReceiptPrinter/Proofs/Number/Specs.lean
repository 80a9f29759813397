import ReceiptPrinter.Number.Format
import ReceiptPrinter.Proofs.Number.Decimal
import ReceiptPrinter.Proofs.Number.Numerals

/-! # Specs — the texts that describe a format

    A format is described by a letter with a count of digits or by a pattern.
    `LetterFormat` lists the letters; `IsPattern` says what a pattern looks like and
    where its point stands, without reading it.  The reader accepts the texts of
    these two kinds and no others (`Format.read?_eq_some_iff`), and no text is of
    both kinds. -/

namespace ReceiptPrinter.Number

/-! ## Letters -/

/-- The letters of formats, each with the count of digits that it stands for when
    none is written. -/
inductive LetterFormat : Char → Nat → (Nat → Format) → Prop
  | fixed {letter : Char} (h : letter = 'F' ∨ letter = 'f') : LetterFormat letter 2 .fixed
  | grouped {letter : Char} (h : letter = 'N' ∨ letter = 'n') : LetterFormat letter 2 .grouped
  | percent {letter : Char} (h : letter = 'P' ∨ letter = 'p') : LetterFormat letter 2 .percent
  | padded {letter : Char} (h : letter = 'D' ∨ letter = 'd') : LetterFormat letter 0 .padded
  | upperHex : LetterFormat 'X' 0 .upperHex
  | lowerHex : LetterFormat 'x' 0 .lowerHex

/-- The text of a format: a letter and a count of digits. -/
def letterSpec (letter : Char) (digits : Nat) : String :=
  String.ofList (letter :: decimal digits)

theorem read?_of_letter {letter : Char} {default : Nat} {make : Nat → Format}
    (h : LetterFormat letter default make) {spec : String} {rest : List Char}
    (hspec : spec.toList = letter :: rest) :
    Format.read? spec = (precision? default rest).map make := by
  rw [Format.read?.eq_def, hspec]
  cases h with
  | fixed h => rcases h with rfl | rfl <;> rfl
  | grouped h => rcases h with rfl | rfl <;> rfl
  | percent h => rcases h with rfl | rfl <;> rfl
  | padded h => rcases h with rfl | rfl <;> rfl
  | upperHex => rfl
  | lowerHex => rfl

theorem isDigit_digitChar {d : Nat} (h : d < 10) : IsDigit d.digitChar d := by
  refine ⟨h, ?_⟩
  have hsub := Nat.toNat_digitChar_sub_48_of_lt_ten h
  have hdigit : d.digitChar.isDigit = true := by rw [Nat.isDigit_digitChar, decide_eq_true h]
  rw [Char.isDigit_iff_toNat] at hdigit
  simp only [Char.reduceToNat] at hdigit
  omega

theorem digits_decimal (n : Nat) : Digits (decimal n) n := by
  induction n using Nat.strongRecOn with
  | ind n ih =>
      rw [decimal]
      by_cases hlt : n < 10
      · rw [Nat.toDigits_of_lt_base hlt]
        exact .one (isDigit_digitChar hlt)
      · have hmore := Digits.more (ih (n / 10) (by omega))
          (isDigit_digitChar (Nat.mod_lt n (by decide)))
        rw [Nat.div_add_mod] at hmore
        rw [Nat.toDigits_of_base_le (by decide) (by omega)]
        exact hmore

/-- A count of at most 99 digits is read as it was written. -/
theorem precision?_decimal (default : Nat) {digits : Nat} (h : digits ≤ 99) :
    precision? default (decimal digits) = some digits := by
  have hread : atMost? 99 (decimal digits) = some digits :=
    atMost?_eq_some_iff.mpr ⟨.inl (digits_decimal digits), h⟩
  obtain ⟨c, rest, hcs, -⟩ := (digits_decimal digits).head
  rw [hcs] at hread ⊢
  exact hread

theorem read?_letterSpec {letter : Char} {default : Nat} {make : Nat → Format}
    (h : LetterFormat letter default make) {digits : Nat} (hd : digits ≤ 99) :
    Format.read? (letterSpec letter digits) = some (make digits) := by
  have hspec : (letterSpec letter digits).toList = letter :: decimal digits :=
    String.toList_ofList
  rw [read?_of_letter h hspec, precision?_decimal default hd, Option.map_some]

/-! ## Patterns -/

/-- A text of two parts with a point between them, or of the first part alone. -/
def PointSplits (cs whole fraction : List Char) : Prop :=
  cs = whole ++ '.' :: fraction ∨ (cs = whole ∧ fraction = [])

/-- A pattern with the places `whole` in front of its point, or with these alone,
    and the places `fraction` behind it.  A place is `0` for a digit, `#` for a digit
    that may be missing, or `,`; at least one of them is a place for a digit. -/
structure IsPattern (spec whole fraction : List Char) : Prop where
  text : PointSplits spec whole fraction
  places : ∀ c ∈ whole ++ fraction, c = '0' ∨ c = '#' ∨ c = ','
  digit : ∃ c ∈ whole ++ fraction, c = '0' ∨ c = '#'

namespace PointSplits

variable {cs whole fraction : List Char}

/-- The point apart, a text has the characters of its parts. -/
theorem mem_iff (h : PointSplits cs whole fraction) {c : Char} (hc : c ≠ '.') :
    c ∈ cs ↔ c ∈ whole ++ fraction := by
  rcases h with rfl | ⟨rfl, rfl⟩
  · simp [hc]
  · simp

/-- A text with at most one point is split by it. -/
theorem of_count (h : cs.count '.' ≤ 1) :
    ∃ whole fraction, PointSplits cs whole fraction ∧ '.' ∉ whole ++ fraction := by
  by_cases hpoint : '.' ∈ cs
  · obtain ⟨whole, fraction, rfl, hwhole⟩ := List.eq_append_cons_of_mem hpoint
    rw [List.count_append, List.count_cons_self, List.count_eq_zero.mpr hwhole] at h
    have hfraction : '.' ∉ fraction := List.count_eq_zero.mp (by omega)
    exact ⟨whole, fraction, .inl rfl, fun hmem => (List.mem_append.mp hmem).elim hwhole hfraction⟩
  · exact ⟨cs, [], .inr ⟨rfl, rfl⟩, by rwa [List.append_nil]⟩

theorem count_le (h : PointSplits cs whole fraction) (hpoint : '.' ∉ whole ++ fraction) :
    cs.count '.' ≤ 1 := by
  have hnone := List.count_eq_zero.mpr hpoint
  rw [List.count_append] at hnone
  rcases h with rfl | ⟨rfl, rfl⟩
  · rw [List.count_append, List.count_cons_self]
    omega
  · omega

/-- The first point of a text finds the parts again. -/
theorem ofChars (h : PointSplits cs whole fraction) (hpoint : '.' ∉ whole ++ fraction) :
    FixedPoint.ofChars cs = ⟨whole, fraction⟩ := by
  have hwhole : '.' ∉ whole := fun hmem => hpoint (List.mem_append_left _ hmem)
  rcases h with rfl | ⟨rfl, rfl⟩
  · exact FixedPoint.ofChars_append hwhole fraction
  · exact FixedPoint.ofChars_of_not_mem hwhole

end PointSplits

theorem IsPattern.point_not_mem {spec whole fraction : List Char}
    (h : IsPattern spec whole fraction) : '.' ∉ whole ++ fraction := by
  intro hmem
  have hplace := h.places '.' hmem
  revert hplace
  decide

/-- What the reader of patterns asks of a text. -/
theorem isPattern_iff {spec whole fraction : List Char} (text : PointSplits spec whole fraction)
    (hpoint : '.' ∉ whole ++ fraction) :
    IsPattern spec whole fraction
      ↔ (∃ c ∈ spec, c = '0' ∨ c = '#')
        ∧ ∀ c ∈ spec, c = '0' ∨ c = '#' ∨ c = '.' ∨ c = ',' := by
  have hdigit : ∀ c, (c = '0' ∨ c = '#') → c ≠ '.' := by
    rintro c (rfl | rfl) <;> decide
  constructor
  · rintro ⟨-, places, c, hc, hzero⟩
    refine ⟨⟨c, (text.mem_iff (hdigit c hzero)).mpr hc, hzero⟩, fun d hd => ?_⟩
    by_cases hd' : d = '.'
    · exact .inr (.inr (.inl hd'))
    · have hplace := places d ((text.mem_iff hd').mp hd)
      exact hplace.imp_right fun h => h.imp_right .inr
  · rintro ⟨⟨c, hc, hzero⟩, hall⟩
    refine ⟨text, fun d hd => ?_, c, (text.mem_iff (hdigit c hzero)).mp hc, hzero⟩
    have hd' : d ≠ '.' := fun e => hpoint (e ▸ hd)
    have hplace := hall d ((text.mem_iff hd').mpr hd)
    exact hplace.imp_right fun h => h.imp_right fun h => h.resolve_left hd'

/-- **THE READER OF PATTERNS ACCEPTS THE PATTERNS** and counts the places on either
    side of the point. -/
theorem Pattern.read?_eq_some_iff {spec : List Char} {p : Pattern} :
    Pattern.read? spec = some p
      ↔ ∃ whole fraction, IsPattern spec whole fraction ∧ p = .ofParts whole fraction := by
  have hparts : ∀ {whole fraction}, PointSplits spec whole fraction → '.' ∉ whole ++ fraction →
      Pattern.ofParts (spec.takeWhile (· ≠ '.')) ((spec.dropWhile (· ≠ '.')).drop 1)
        = .ofParts whole fraction := fun text hpoint =>
    congrArg (fun x : FixedPoint => Pattern.ofParts x.whole x.fraction) (text.ofChars hpoint)
  rw [Pattern.read?]
  simp only [Bool.and_eq_true, List.any_eq_true, List.all_eq_true, Bool.or_eq_true, beq_iff_eq,
    decide_eq_true_eq, or_assoc]
  constructor
  · intro h
    split at h
    next hshape =>
      obtain ⟨hchars, hcount⟩ := hshape
      obtain ⟨whole, fraction, text, hpoint⟩ := PointSplits.of_count hcount
      refine ⟨whole, fraction, (isPattern_iff text hpoint).mpr hchars, ?_⟩
      rw [← hparts text hpoint]
      exact (Option.some.inj h).symm
    next => cases h
  · rintro ⟨whole, fraction, h, rfl⟩
    have hchars := (isPattern_iff h.text h.point_not_mem).mp h
    rw [if_pos ⟨hchars, h.text.count_le h.point_not_mem⟩, hparts h.text h.point_not_mem]

/-! ## Both kinds -/

/-- No letter of a format stands in a pattern. -/
theorem LetterFormat.not_place {letter : Char} {default : Nat} {make : Nat → Format}
    (h : LetterFormat letter default make) :
    ¬ (letter = '0' ∨ letter = '#' ∨ letter = '.' ∨ letter = ',') := by
  cases h with
  | fixed h | grouped h | percent h | padded h => rcases h with rfl | rfl <;> decide
  | upperHex | lowerHex => decide

/-- A text that begins with no letter of a format can only be a pattern. -/
theorem read?_of_no_letter {spec : String}
    (h : ∀ letter default make rest, LetterFormat letter default make →
      spec.toList ≠ letter :: rest) :
    Format.read? spec = (Pattern.read? spec.toList).map .pattern := by
  rw [Format.read?.eq_def]
  split
  next heq => exact absurd heq (h _ _ _ _ (.fixed (.inl rfl)))
  next heq => exact absurd heq (h _ _ _ _ (.fixed (.inr rfl)))
  next heq => exact absurd heq (h _ _ _ _ (.grouped (.inl rfl)))
  next heq => exact absurd heq (h _ _ _ _ (.grouped (.inr rfl)))
  next heq => exact absurd heq (h _ _ _ _ (.percent (.inl rfl)))
  next heq => exact absurd heq (h _ _ _ _ (.percent (.inr rfl)))
  next heq => exact absurd heq (h _ _ _ _ (.padded (.inl rfl)))
  next heq => exact absurd heq (h _ _ _ _ (.padded (.inr rfl)))
  next heq => exact absurd heq (h _ _ _ _ .upperHex)
  next heq => exact absurd heq (h _ _ _ _ .lowerHex)
  next => rfl

theorem read?_of_pattern {spec : String} {whole fraction : List Char}
    (h : IsPattern spec.toList whole fraction) :
    Format.read? spec = some (.pattern (.ofParts whole fraction)) := by
  have hread : Pattern.read? spec.toList = some (.ofParts whole fraction) :=
    Pattern.read?_eq_some_iff.mpr ⟨whole, fraction, h, rfl⟩
  rw [read?_of_no_letter, hread, Option.map_some]
  intro letter default make rest hl heq
  refine hl.not_place (((isPattern_iff h.text h.point_not_mem).mp h).2 letter ?_)
  rw [heq]
  exact List.mem_cons_self

/-- **WHICH FORMAT A TEXT DESCRIBES**: one of a letter, or that of a pattern. -/
theorem Format.read?_eq_some_iff {spec : String} {format : Format} :
    Format.read? spec = some format
      ↔ (∃ letter default make rest n, LetterFormat letter default make
          ∧ spec.toList = letter :: rest ∧ precision? default rest = some n ∧ format = make n)
        ∨ ∃ whole fraction, IsPattern spec.toList whole fraction
          ∧ format = .pattern (.ofParts whole fraction) := by
  constructor
  · intro h
    by_cases hletter : ∃ letter default make rest, LetterFormat letter default make
        ∧ spec.toList = letter :: rest
    · obtain ⟨letter, default, make, rest, hl, heq⟩ := hletter
      rw [read?_of_letter hl heq] at h
      obtain ⟨n, hn, rfl⟩ := Option.map_eq_some_iff.mp h
      exact .inl ⟨letter, default, make, rest, n, hl, heq, hn, rfl⟩
    · rw [read?_of_no_letter fun letter default make rest hl heq =>
        hletter ⟨letter, default, make, rest, hl, heq⟩] at h
      obtain ⟨p, hp, rfl⟩ := Option.map_eq_some_iff.mp h
      obtain ⟨whole, fraction, hpattern, rfl⟩ := Pattern.read?_eq_some_iff.mp hp
      exact .inr ⟨whole, fraction, hpattern, rfl⟩
  · rintro (⟨letter, default, make, rest, n, hl, heq, hn, rfl⟩ | ⟨whole, fraction, h, rfl⟩)
    · rw [read?_of_letter hl heq, hn, Option.map_some]
    · exact read?_of_pattern h

end ReceiptPrinter.Number
