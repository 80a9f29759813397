import Mathlib.Data.List.Induction
import Mathlib.Data.List.TakeWhile
import ReceiptPrinter.Number.Integer
import ReceiptPrinter.Text.Blank

/-! # Decimals — which texts write an integer

    `Decimal cs n` says that characters write an integer in base ten: at least
    one digit, each worth ten times the one behind it, and perhaps a sign.  It
    is a grammar and does not read; `signed?_eq_some_iff` says that the reader
    of signed numbers accepts it and nothing else.

    Numbers in markup may have blanks around them.  `Text.Around` says so
    without trimming, and for a text without blanks of its own it means the
    same (`Text.around_iff`). -/

namespace ReceiptPrinter

namespace Number

/-- A digit and what it is worth. -/
def IsDigit (c : Char) (d : Nat) : Prop :=
  d < 10 ∧ c.toNat = 48 + d

/-- Digits that write a number in base ten. -/
inductive Digits : List Char → Nat → Prop
  | one {c : Char} {d : Nat} (last : IsDigit c d) : Digits [c] d
  | more {cs : List Char} {n : Nat} {c : Char} {d : Nat} (front : Digits cs n)
      (last : IsDigit c d) : Digits (cs ++ [c]) (10 * n + d)

/-- Digits that write an integer, with a sign in front or without one. -/
inductive Decimal : List Char → Int → Prop
  | plain {cs : List Char} {n : Nat} (digits : Digits cs n) : Decimal cs n
  | plus {cs : List Char} {n : Nat} (digits : Digits cs n) : Decimal ('+' :: cs) n
  | minus {cs : List Char} {n : Nat} (digits : Digits cs n) : Decimal ('-' :: cs) (-n)

theorem digitValue?_eq_some_iff {c : Char} {d : Nat} : digitValue? c = some d ↔ IsDigit c d := by
  have h0 : ('0' ≤ c) ↔ 48 ≤ c.toNat := Char.le_def.trans UInt32.le_iff_toNat_le
  have h9 : (c ≤ '9') ↔ c.toNat ≤ 57 := Char.le_def.trans UInt32.le_iff_toNat_le
  rw [digitValue?, IsDigit]
  split
  next h =>
    rw [h0, h9] at h
    show some (c.toNat - 48) = some d ↔ _
    rw [Option.some.injEq]
    omega
  next h =>
    rw [h0, h9] at h
    simp only [reduceCtorEq, false_iff]
    omega

theorem digitsOnto?_append (n : Nat) (cs ds : List Char) :
    digitsOnto? n (cs ++ ds) = (digitsOnto? n cs).bind (digitsOnto? · ds) := by
  induction cs generalizing n with
  | nil => rfl
  | cons c rest ih =>
      rw [List.cons_append, digitsOnto?, digitsOnto?, Option.bind_assoc]
      exact congrArg _ (funext fun d => ih (10 * n + d))

/-- One digit more makes ten times the number, and the digit. -/
theorem digitsOnto?_concat_eq_some_iff {n m : Nat} {cs : List Char} {c : Char} :
    digitsOnto? n (cs ++ [c]) = some m
      ↔ ∃ k d, digitsOnto? n cs = some k ∧ IsDigit c d ∧ m = 10 * k + d := by
  have hlast : ∀ k, digitsOnto? k [c] = some m ↔ ∃ d, IsDigit c d ∧ m = 10 * k + d := by
    intro k
    show (digitValue? c).bind (fun d => some (10 * k + d)) = some m ↔ _
    simp only [Option.bind_eq_some_iff, digitValue?_eq_some_iff, Option.some.injEq,
      @eq_comm _ m]
  simp only [digitsOnto?_append, Option.bind_eq_some_iff, hlast, exists_and_left]

theorem digits?_eq_some_iff {cs : List Char} {n : Nat} : digits? cs = some n ↔ Digits cs n := by
  constructor
  · intro h
    -- Digits are read from the front, but a numeral ends in its last digit.
    induction cs using List.reverseRecOn generalizing n with
    | nil => cases h
    | append_singleton front c ih =>
        have hon : digitsOnto? 0 (front ++ [c]) = some n := by
          cases front <;> exact h
        obtain ⟨k, d, hk, hd, rfl⟩ := digitsOnto?_concat_eq_some_iff.mp hon
        cases front with
        | nil =>
            obtain rfl := Option.some.inj hk
            rw [Nat.mul_zero, Nat.zero_add]
            exact .one hd
        | cons first rest => exact .more (ih hk) hd
  · intro h
    induction h with
    | @one c d last =>
        have hon : digitsOnto? 0 ([] ++ [c]) = some d :=
          digitsOnto?_concat_eq_some_iff.mpr ⟨0, d, rfl, last, by omega⟩
        exact hon
    | @more cs n c d front last ih =>
        have hon : digitsOnto? 0 (cs ++ [c]) = some (10 * n + d) := by
          refine digitsOnto?_concat_eq_some_iff.mpr ⟨n, d, ?_, last, rfl⟩
          cases cs with
          | nil => cases ih
          | cons first rest => exact ih
        cases cs <;> exact hon

/-- A number begins with a digit. -/
theorem Digits.head {cs : List Char} {n : Nat} (h : Digits cs n) :
    ∃ c rest, cs = c :: rest ∧ ∃ d, IsDigit c d := by
  induction h with
  | @one c d last => exact ⟨c, [], rfl, d, last⟩
  | more front last ih =>
      obtain ⟨c, rest, rfl, hc⟩ := ih
      exact ⟨c, _, rfl, hc⟩

/-- A digit is neither of the signs. -/
theorem Digits.not_sign {sign : Char} (h : sign = '+' ∨ sign = '-') {cs : List Char} {n : Nat} :
    ¬ Digits (sign :: cs) n := by
  intro digits
  obtain ⟨c, rest, hcs, d, hd, hc⟩ := digits.head
  obtain rfl := (List.cons.inj hcs).1
  rcases h with rfl | rfl
  all_goals
    simp only [Char.reduceToNat] at hc
    omega

/-- The reader of numbers without sign accepts digits, as they stand or behind a `+`. -/
theorem unsigned?_eq_some_iff {cs : List Char} {n : Nat} :
    unsigned? cs = some n ↔ Digits cs n ∨ ∃ ds, cs = '+' :: ds ∧ Digits ds n := by
  constructor
  · intro h
    rw [unsigned?.eq_def] at h
    split at h
    · exact .inr ⟨_, rfl, digits?_eq_some_iff.mp h⟩
    · exact .inl (digits?_eq_some_iff.mp h)
  · rintro (digits | ⟨ds, rfl, digits⟩)
    · rw [unsigned?.eq_def]
      split
      · exact absurd digits (Digits.not_sign (.inl rfl))
      · exact digits?_eq_some_iff.mpr digits
    · exact digits?_eq_some_iff.mpr digits

theorem atMost?_eq_some_iff {greatest : Nat} {cs : List Char} {n : Nat} :
    atMost? greatest cs = some n
      ↔ (Digits cs n ∨ ∃ ds, cs = '+' :: ds ∧ Digits ds n) ∧ n ≤ greatest := by
  rw [atMost?, Option.filter_eq_some_iff, unsigned?_eq_some_iff, decide_eq_true_eq]

/-- **THE READER OF SIGNED NUMBERS ACCEPTS THE NUMERALS** and gives the number
    that they write. -/
theorem signed?_eq_some_iff {cs : List Char} {n : Int} :
    signed? cs = some n ↔ Decimal cs n := by
  constructor
  · intro h
    rw [signed?.eq_def] at h
    split at h
    · obtain ⟨m, hm, rfl⟩ := Option.map_eq_some_iff.mp h
      exact .minus (digits?_eq_some_iff.mp hm)
    · obtain ⟨m, hm, rfl⟩ := Option.map_eq_some_iff.mp h
      rcases unsigned?_eq_some_iff.mp hm with digits | ⟨ds, rfl, digits⟩
      · exact .plain digits
      · exact .plus digits
  · intro h
    cases h with
    | plain digits =>
        rw [signed?.eq_def]
        split
        · exact absurd digits (Digits.not_sign (.inr rfl))
        · rw [unsigned?_eq_some_iff.mpr (.inl digits)]
          rfl
    | plus digits =>
        show (digits? _).map Int.ofNat = _
        rw [digits?_eq_some_iff.mpr digits]
        rfl
    | minus digits =>
        show (digits? _).map _ = _
        rw [digits?_eq_some_iff.mpr digits]
        rfl

theorem isBlank_of_isDigit {c : Char} {d : Nat} (h : IsDigit c d) : Text.isBlank c = false := by
  obtain ⟨hd, hc⟩ := h
  simp only [Text.isBlank, hc, Bool.or_eq_false_iff, Bool.and_eq_false_iff, decide_eq_false_iff_not,
    beq_eq_false_iff_ne]
  omega

theorem Digits.unblank {cs : List Char} {n : Nat} (h : Digits cs n) :
    ∀ c ∈ cs, Text.isBlank c = false := by
  induction h with
  | one last => exact List.forall_mem_singleton.mpr (isBlank_of_isDigit last)
  | more front last ih =>
      exact List.forall_mem_append.mpr
        ⟨ih, List.forall_mem_singleton.mpr (isBlank_of_isDigit last)⟩

/-- A numeral has no blanks of its own. -/
theorem Decimal.unblank {cs : List Char} {n : Int} (h : Decimal cs n) :
    ∀ c ∈ cs, Text.isBlank c = false := by
  cases h with
  | plain digits => exact digits.unblank
  | plus digits => exact List.forall_mem_cons.mpr ⟨by decide, digits.unblank⟩
  | minus digits => exact List.forall_mem_cons.mpr ⟨by decide, digits.unblank⟩

end Number

/-! ## Blanks around a text -/

namespace Text

/-- A text that is some characters with blanks around them. -/
def Around (inner : List Char) (v : String) : Prop :=
  ∃ front back, (∀ c ∈ front, isBlank c = true) ∧ (∀ c ∈ back, isBlank c = true)
    ∧ v.toList = front ++ inner ++ back

/-- Characters that are not blank are what is left of them and the blanks around. -/
theorem trimChars_of_unblank {front inner back : List Char} (hf : ∀ c ∈ front, isBlank c = true)
    (hb : ∀ c ∈ back, isBlank c = true) (hi : ∀ c ∈ inner, isBlank c = false) :
    trimChars (front ++ inner ++ back) = inner := by
  have hkeep : ∀ {cs after : List Char}, (∀ c ∈ cs, isBlank c = false) → cs ≠ [] →
      (cs ++ after).dropWhile isBlank = cs ++ after := by
    intro cs after h hne
    obtain ⟨c, rest, rfl⟩ := List.exists_cons_of_ne_nil hne
    rw [List.cons_append, List.dropWhile_cons_of_neg]
    rw [(List.forall_mem_cons.mp h).1]
    exact Bool.false_ne_true
  have hreverse : ∀ c ∈ back.reverse, isBlank c = true :=
    fun c hc => hb c (List.mem_reverse.mp hc)
  rw [trimChars, dropBlankEnd, List.append_assoc, List.dropWhile_append_of_pos hf]
  by_cases hne : inner = []
  · rw [hne, List.nil_append, List.dropWhile_eq_nil_iff.mpr hb]
    rfl
  · rw [hkeep hi hne, List.reverse_append, List.dropWhile_append_of_pos hreverse,
      ← List.append_nil inner.reverse,
      hkeep (fun c hc => hi c (List.mem_reverse.mp hc)) (by simpa using hne), List.append_nil,
      List.reverse_reverse]

/-- What trimming leaves of a text stands in it between blanks. -/
theorem around_trimChars (v : String) : Around (trimChars v.toList) v := by
  refine ⟨v.toList.takeWhile isBlank,
    ((v.toList.dropWhile isBlank).reverse.takeWhile isBlank).reverse,
    fun c hc => (List.mem_takeWhile_imp hc), ?_, ?_⟩
  · intro c hc
    exact List.mem_takeWhile_imp (List.mem_reverse.mp hc)
  · rw [trimChars, dropBlankEnd, List.append_assoc, ← List.reverse_append,
      List.takeWhile_append_dropWhile, List.reverse_reverse, List.takeWhile_append_dropWhile]

/-- A text without blanks of its own is found by trimming. -/
theorem around_iff {inner : List Char} (h : ∀ c ∈ inner, isBlank c = false) (v : String) :
    Around inner v ↔ trimChars v.toList = inner := by
  constructor
  · rintro ⟨front, back, hf, hb, hv⟩
    rw [hv, trimChars_of_unblank hf hb h]
  · rintro rfl
    exact around_trimChars v

end Text

end ReceiptPrinter
