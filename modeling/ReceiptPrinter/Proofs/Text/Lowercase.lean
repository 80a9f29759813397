import Mathlib.Data.List.Basic
import ReceiptPrinter.Text.Letters
import ReceiptPrinter.Text.Lowercase

/-! # Lower case — what it keeps apart and what it does not

    Records compare names by ASCII letters, contexts by the lower case of any
    script.  The second is the coarser one: names that are the same to a record
    have the same lower case (`lowercase_of_sameName`).  This is not plain from
    the characters alone, since the lower case of a sigma depends on those
    around it; but a letter of ASCII is cased in both of its forms.

    Behind anything, a text of ASCII alone has the lower case that ASCII gives it,
    so two such texts with the same lower case are the same to a record too
    (`sameName_of_lowercase_below`).

    A dot stays a dot, and nothing else becomes one (`count_dot_lowercase`),
    so paths have as many segments in lower case as they had before. -/

namespace ReceiptPrinter.Text

/-! ## Letters of ASCII -/

theorem toLower_of_not_capital {c : Char} (h : ¬ (65 ≤ c.toNat ∧ c.toNat ≤ 90)) :
    c.toLower = c := by
  refine dif_neg fun k => h ?_
  exact ⟨UInt32.le_iff_toNat_le.mp k.1, UInt32.le_iff_toNat_le.mp k.2⟩

/-- What does not tell the two forms of a letter apart does not see lower case by
    ASCII at all. -/
theorem toLower_congr {α : Type} (f : Char → α)
    (h : ∀ i < 26, f (Char.ofNat (97 + i)) = f (Char.ofNat (65 + i))) (c : Char) :
    f c.toLower = f c := by
  have small : ∀ i < 26, (Char.ofNat (65 + i)).toLower = Char.ofNat (97 + i) := by decide
  by_cases hc : 65 ≤ c.toNat ∧ c.toNat ≤ 90
  · have hi : c.toNat - 65 < 26 := by omega
    have hofNat : Char.ofNat (65 + (c.toNat - 65)) = c := by
      rw [Nat.add_sub_cancel' hc.1, Char.ofNat_toNat]
    have hf := h _ hi
    rwa [← small _ hi, hofNat] at hf
  · rw [toLower_of_not_capital hc]

/-- No letter of ASCII is skipped. -/
theorem not_skipped_of_letter {n : Nat} (h : 65 ≤ n ∧ n ≤ 90 ∨ 97 ≤ n ∧ n ≤ 122) :
    inRanges skippedRanges n = false := by
  have apart : ∀ r ∈ skippedRanges, r.2 < 65 ∨ 90 < r.1 ∧ r.2 < 97 ∨ 122 < r.1 := by
    decide +kernel
  rw [inRanges, List.any_eq_false]
  intro r hr
  have hr := apart r hr
  simp only [Bool.and_eq_true, decide_eq_true_eq]
  omega

theorem skipped_toLower : ∀ c : Char,
    inRanges skippedRanges c.toLower.toNat = inRanges skippedRanges c.toNat := by
  refine toLower_congr (fun c => inRanges skippedRanges c.toNat) fun i hi => ?_
  have capital : ∀ i < 26, (Char.ofNat (65 + i)).toNat = 65 + i := by decide
  have small : ∀ i < 26, (Char.ofNat (97 + i)).toNat = 97 + i := by decide
  rw [capital i hi, small i hi, not_skipped_of_letter (by omega), not_skipped_of_letter (by omega)]

theorem cased_toLower : ∀ c : Char,
    inRanges casedRanges c.toLower.toNat = inRanges casedRanges c.toNat :=
  toLower_congr (fun c => inRanges casedRanges c.toNat) (by decide +kernel)

theorem lowerSimple_toLower : ∀ c : Char, lowerSimple c.toLower = lowerSimple c :=
  toLower_congr lowerSimple (by decide)

/-! ## Lower case by ASCII in front of that of any script -/

theorem meetsCased_toLower (cs : List Char) : meetsCased (cs.map Char.toLower) = meetsCased cs := by
  have skipped : (fun c => inRanges skippedRanges c.toNat) ∘ Char.toLower
      = fun c => inRanges skippedRanges c.toNat := funext skipped_toLower
  rw [meetsCased, meetsCased, List.dropWhile_map, skipped]
  cases cs.dropWhile fun c => inRanges skippedRanges c.toNat with
  | nil => rfl
  | cons c rest => exact cased_toLower c

theorem lowerBetween_toLower (before : List Char) (c : Char) (after : List Char) :
    lowerBetween (before.map Char.toLower) c.toLower (after.map Char.toLower)
      = lowerBetween before c after := by
  have sigma : (c.toLower = 'Σ') = (c = 'Σ') := toLower_congr (· = 'Σ') (by decide) c
  have dotted : (c.toLower = 'İ') = (c = 'İ') := toLower_congr (· = 'İ') (by decide) c
  simp only [lowerBetween, meetsCased_toLower, lowerSimple_toLower, sigma, dotted]

theorem lowerFrom_toLower (before cs : List Char) :
    lowerFrom (before.map Char.toLower) (cs.map Char.toLower) = lowerFrom before cs := by
  induction cs generalizing before with
  | nil => rfl
  | cons c after ih =>
      rw [List.map_cons, lowerFrom, lowerFrom, lowerBetween_toLower, ← List.map_cons, ih]

/-- **NAMES THAT ARE THE SAME TO A RECORD HAVE THE SAME LOWER CASE.** -/
theorem lowercase_of_sameName {a b : String} (h : sameName a b = true) :
    lowercase a = lowercase b := by
  have hfold : a.toList.map Char.toLower = b.toList.map Char.toLower := (sameName_iff a b).mp h
  rw [lowercase, lowercase, ← lowerFrom_toLower, hfold]
  exact congrArg String.ofList (lowerFrom_toLower [] b.toList)

/-- Names that are the same to a record are so below another name. -/
theorem sameName_append (outer : String) {a b : String} (h : sameName a b = true) :
    sameName (outer ++ a) (outer ++ b) = true := by
  rw [sameName_iff] at h ⊢
  rw [foldCase, foldCase, String.toList_append, String.toList_append, List.map_append,
    List.map_append]
  exact congrArg (outer.toList.map Char.toLower ++ ·) h

/-! ## Dots -/

/-- No lower-case form in the table is one of the first characters of ASCII. -/
theorem dot_lt_of_mem_lowerRuns : ∀ r ∈ lowerRuns, (46 : Int) < r.first + r.shift := by
  decide +kernel

theorem lowerSimple_eq_dot_iff {c : Char} : lowerSimple c = '.' ↔ c = '.' := by
  have ascii : (c.toLower = '.') = (c = '.') := toLower_congr (· = '.') (by decide) c
  rw [lowerSimple]
  split
  · rw [ascii]
  next hhigh =>
    split
    next r hr =>
      have hmem := dot_lt_of_mem_lowerRuns r (List.mem_of_find?_eq_some hr)
      have hfound := List.find?_some hr
      simp only [Bool.and_eq_true, decide_eq_true_eq] at hfound
      refine iff_of_false (fun h => ?_) ?_
      · rw [Char.ofNat] at h
        by_cases hvalid : (c.toNat + r.shift).toNat.isValidChar
        · rw [dif_pos hvalid] at h
          have hnat : (c.toNat + r.shift).toNat = 46 := congrArg Char.toNat h
          omega
        · rw [dif_neg hvalid] at h
          exact absurd h (by decide)
      -- A dot is not looked up in the table.
      · rintro rfl
        exact hhigh (by decide)
    · rfl

theorem count_dot_lowerBetween (before : List Char) (c : Char) (after : List Char) :
    (lowerBetween before c after).count '.' = [c].count '.' := by
  rw [lowerBetween]
  split
  next hc =>
    subst hc
    split <;> decide
  next =>
    split
    next hc =>
      subst hc
      decide
    next =>
      have same : (lowerSimple c == '.') = (c == '.') := by
        rw [Bool.eq_iff_iff, beq_iff_eq, beq_iff_eq, lowerSimple_eq_dot_iff]
      rw [List.count_singleton, List.count_singleton, same]

theorem count_dot_lowerFrom (before cs : List Char) :
    (lowerFrom before cs).count '.' = cs.count '.' := by
  induction cs generalizing before with
  | nil => rfl
  | cons c after ih =>
      rw [lowerFrom, List.count_append, count_dot_lowerBetween, ih, ← List.count_append,
        List.singleton_append]

/-- A text has as many dots in lower case as it had before. -/
theorem count_dot_lowercase (s : String) :
    (lowercase s).toList.count '.' = s.toList.count '.' := by
  rw [lowercase, String.toList_ofList]
  exact count_dot_lowerFrom [] s.toList

/-- A text has a dot in lower case if it has one. -/
theorem dot_mem_lowercase_iff (s : String) : '.' ∈ (lowercase s).toList ↔ '.' ∈ s.toList := by
  rw [← List.count_pos_iff, ← List.count_pos_iff, count_dot_lowercase]

/-! ## Texts of ASCII -/

/-- A text of characters of ASCII. -/
def Ascii (s : String) : Prop :=
  ∀ c ∈ s.toList, c.toNat < 128

instance (s : String) : Decidable (Ascii s) :=
  List.decidableBAll (fun c : Char => c.toNat < 128) s.toList

theorem lowerBetween_of_ascii {c : Char} (h : c.toNat < 128) (before after : List Char) :
    lowerBetween before c after = [c.toLower] := by
  have sigma : c ≠ 'Σ' := by
    rintro rfl
    exact absurd h (by decide)
  have dotted : c ≠ 'İ' := by
    rintro rfl
    exact absurd h (by decide)
  rw [lowerBetween, if_neg sigma, if_neg dotted, lowerSimple, if_pos h]

theorem lowerFrom_of_ascii {cs : List Char} (h : ∀ c ∈ cs, c.toNat < 128) (before : List Char) :
    lowerFrom before cs = cs.map Char.toLower := by
  induction cs generalizing before with
  | nil => rfl
  | cons c after ih =>
      rw [List.forall_mem_cons] at h
      rw [lowerFrom, lowerBetween_of_ascii h.1, ih h.2]
      rfl

/-- The lower case of a text has a part for its first characters, with as many dots. -/
theorem exists_lowerFrom_append (before xs ys : List Char) :
    ∃ front, front.count '.' = xs.count '.'
      ∧ lowerFrom before (xs ++ ys) = front ++ lowerFrom (xs.reverse ++ before) ys := by
  induction xs generalizing before with
  | nil => exact ⟨[], rfl, rfl⟩
  | cons c rest ih =>
      obtain ⟨front, dots, h⟩ := ih (c :: before)
      refine ⟨lowerBetween before c (rest ++ ys) ++ front, ?_, ?_⟩
      · rw [List.count_append, count_dot_lowerBetween, dots, ← List.count_append,
          List.singleton_append]
      · rw [List.cons_append, lowerFrom, h, List.append_assoc, List.reverse_cons,
          List.append_assoc, List.singleton_append]

/-- The lower case of a name of ASCII below another name. -/
theorem exists_lowercase_below (outer : String) {name : String} (ascii : Ascii name) :
    ∃ front, front.count '.' = outer.toList.count '.'
      ∧ (lowercase (outer ++ "." ++ name)).toList = front ++ '.' :: foldCase name := by
  obtain ⟨front, dots, h⟩ := exists_lowerFrom_append [] outer.toList ('.' :: name.toList)
  refine ⟨front, dots, ?_⟩
  have chars : (outer ++ "." ++ name).toList = outer.toList ++ '.' :: name.toList := by
    rw [String.toList_append, String.toList_append, List.append_assoc]
    rfl
  rw [lowercase, String.toList_ofList, chars, h, lowerFrom_of_ascii]
  · rfl
  · exact List.forall_mem_cons.mpr ⟨by decide, ascii⟩

/-- Names of ASCII that have one lower case below other names are the same to a record. -/
theorem sameName_of_lowercase_below {outer first a b : String} (dotless : '.' ∉ outer.toList)
    (name : '.' ∉ a.toList) (ha : Ascii a) (hb : Ascii b)
    (same : lowercase (outer ++ "." ++ a) = lowercase (first ++ "." ++ b)) :
    sameName a b = true := by
  obtain ⟨x, dots, hx⟩ := exists_lowercase_below outer ha
  obtain ⟨y, -, hy⟩ := exists_lowercase_below first hb
  have front : '.' ∉ x := by
    rw [← List.count_eq_zero, dots]
    exact List.count_eq_zero.mpr dotless
  have back : '.' ∉ foldCase a := by
    rw [foldCase, List.mem_map]
    rintro ⟨c, hc, hdot⟩
    have capital : (c.toLower = '.') = (c = '.') := toLower_congr (· = '.') (by decide) c
    rw [capital] at hdot
    exact name (hdot ▸ hc)
  rw [same, hy] at hx
  exact (sameName_iff a b).mpr ((List.append_cons_inj_of_notMem front back).mp hx.symm).2.2

end ReceiptPrinter.Text
