import ReceiptPrinter.Markup.Schema
import ReceiptPrinter.Proofs.Outcomes
import ReceiptPrinter.Receipt.Tag

/-! # Grammar — what validated markup keeps

    Validation looks at a tree from the root down.  What it leaves behind is a
    fact about each element by itself: a tag is SOUND if its element is in the
    vocabulary, each of its attributes has a value that its rule allows, and no
    attribute that must be there is missing (`sound_of_validate`).

    The second half is about numerals.  The vocabulary reads them with a sign
    and the compiler without one.  What the compiler reads the vocabulary reads
    too, and as the same number (`Tag.integer?_of_number?`); in the other
    direction this holds on the ranges of the vocabulary, of every text that does
    not begin with a minus (`Tag.Sound.number?`). -/

namespace ReceiptPrinter

open Markup (Node Element Attributes AttributeRule ElementRule ValueKind)

mutual

/-- The tags of a node and of the elements in it, in their order. -/
def Markup.Node.tags : Node → List Tag
  | .text _ => []
  | .element name attributes children => ⟨name, attributes⟩ :: Markup.tagsOf children

/-- The tags of nodes and of the elements in them. -/
def Markup.tagsOf : List Node → List Tag
  | [] => []
  | n :: rest => n.tags ++ Markup.tagsOf rest

end

namespace Tag

/-- The rule of an attribute of a tag. -/
def rule? (t : Tag) (attr : String) : Option AttributeRule :=
  (Markup.rule? t.name).bind (·.attribute? attr)

/-- A tag that breaks no rule. -/
def Sound (t : Tag) : Prop :=
  ∃ r, Markup.rule? t.name = some r ∧ r.attributeBreaches t.attributes = []
    ∧ r.missingBreaches t.attributes = []

variable {t : Tag} {attr v : String} {a : AttributeRule}

theorem name_of_rule? (h : t.rule? attr = some a) : a.name = attr := by
  obtain ⟨r, -, ha⟩ := Option.bind_eq_some_iff.mp h
  rw [ElementRule.attribute?] at ha
  have hn := List.find?_some ha
  exact beq_iff_eq.mp hn

/-- The value of an attribute breaks no rule. -/
theorem Sound.breach?_eq_none (h : t.Sound) (ha : t.rule? attr = some a)
    (hv : t.attributes.get? attr = some v) : a.breach? v = none := by
  obtain ⟨r, hr, hb, -⟩ := h
  rw [rule?, hr, Option.bind_some] at ha
  obtain ⟨front, back, hattrs, -⟩ := List.lookup_eq_some_iff.mp hv
  have hm : (attr, v) ∈ t.attributes := by
    rw [hattrs]
    exact List.mem_append_right front List.mem_cons_self
  have hn := List.filterMap_eq_nil_iff.mp hb (attr, v) hm
  dsimp only at hn
  rw [ha] at hn
  exact hn

/-- An attribute that must be there is there. -/
theorem Sound.nonEmpty? (h : t.Sound) (ha : t.rule? attr = some a) (req : a.required = true) :
    ∃ v, t.attributes.nonEmpty? attr = some v := by
  have hname := name_of_rule? ha
  obtain ⟨r, hr, -, hm⟩ := h
  rw [rule?, hr, Option.bind_some] at ha
  have hmem : a ∈ r.attributes.filter (·.required) :=
    List.mem_filter.mpr ⟨List.mem_of_find?_eq_some ha, req⟩
  have hn := List.filterMap_eq_nil_iff.mp hm a hmem
  rw [hname] at hn
  cases hv : t.attributes.nonEmpty? attr with
  | some v => exact ⟨v, rfl⟩
  | none =>
      rw [if_pos hv] at hn
      cases hn

end Tag

/-! ## Validated trees -/

theorem Markup.tags_of_no_name {children : List Node} (h : ∀ n ∈ children, n.name? = none) :
    tagsOf children = [] := by
  induction children with
  | nil => rfl
  | cons n rest ih =>
      rw [List.forall_mem_cons] at h
      cases n with
      | text content => exact ih h.2
      | element name attributes children => exact absurd h.1 (Option.some_ne_none name)

/-- An element that may not contain elements contains none. -/
theorem Markup.ElementRule.name?_of_childBreach? {r : ElementRule} {n : Node}
    (hr : r.content ≠ .mixed) (h : r.childBreach? n = none) : n.name? = none := by
  cases n with
  | text content => rfl
  | element name attributes children =>
      rw [childBreach?] at h
      cases hc : r.content with
      | empty =>
          rw [hc] at h
          cases h
      | text =>
          rw [hc] at h
          cases h
      | mixed => exact absurd hc hr

mutual

theorem Markup.Node.sound_of_violations {path : String} :
    ∀ n : Node, n.violations path = [] → ∀ t ∈ n.tags, t.Sound
  | .text _, _ => List.forall_mem_nil _
  | .element name attributes children, h => by
      rw [Markup.Node.violations] at h
      split at h
      · cases h
      next r hr =>
        obtain ⟨hb, hc⟩ := List.append_eq_nil_iff.mp h
        rw [List.map_eq_nil_iff] at hb
        obtain ⟨hb, hchild⟩ := List.append_eq_nil_iff.mp hb
        obtain ⟨hattrs, hmissing⟩ := List.append_eq_nil_iff.mp hb
        refine List.forall_mem_cons.mpr ⟨⟨r, hr, hattrs, hmissing⟩, ?_⟩
        by_cases hm : r.content = .mixed
        · rw [if_pos hm] at hc
          exact Markup.sound_of_childViolations children hc
        -- Children of any other element are text, which has no tags.
        · have hn : ∀ n ∈ children, n.name? = none := fun n hn =>
            r.name?_of_childBreach? hm (List.filterMap_eq_nil_iff.mp hchild n hn)
          rw [Markup.tags_of_no_name hn]
          exact List.forall_mem_nil _

theorem Markup.sound_of_childViolations {path : String} {place : Nat} :
    ∀ ns : List Node, childViolations path place ns = [] → ∀ t ∈ tagsOf ns, t.Sound
  | [], _ => List.forall_mem_nil _
  | .text _ :: rest, h => sound_of_childViolations rest h
  | .element name attributes children :: rest, h => by
      obtain ⟨hfirst, hrest⟩ := List.append_eq_nil_iff.mp h
      exact List.forall_mem_append.mpr
        ⟨Node.sound_of_violations _ hfirst, sound_of_childViolations rest hrest⟩

end

/-- **EVERY TAG OF A VALIDATED TREE IS SOUND**. -/
theorem sound_of_validate {root : Element} (h : root.validate = .ok ()) :
    ∀ t ∈ root.toNode.tags, t.Sound := by
  rw [Element.validate] at h
  split at h
  next hv => exact root.toNode.sound_of_violations (List.append_eq_nil_iff.mp hv).2
  · cases h

/-! ## Numerals -/

namespace Number

/-- A numeral without a minus is read alike with and without signs. -/
theorem signed?_of_no_minus {digits : List Char} (h : digits.head? ≠ some '-') :
    signed? digits = (unsigned? digits).map Int.ofNat := by
  rw [signed?.eq_def]
  split
  · exact absurd rfl h
  · rfl

/-- Behind a minus there is no number that is not negative but zero. -/
theorem signed?_of_minus {digits : List Char} {n : Int} (h : digits.head? = some '-')
    (hn : signed? digits = some n) : n ≤ 0 ∧ unsigned? digits = none := by
  obtain ⟨rest, rfl⟩ := List.head?_eq_some_iff.mp h
  obtain ⟨m, -, hm⟩ := Option.map_eq_some_iff.mp hn
  refine ⟨?_, rfl⟩
  rw [← hm]
  exact Int.neg_nonpos_of_nonneg (Int.natCast_nonneg m)

/-- The greatest of the limits that the compiler sets is one of 64 bits. -/
theorem fits64_of_le {n : Nat} (h : n ≤ 65535) : fits64 ↑n = true := by
  have hmin : Int64.minValue.toInt = -9223372036854775808 := rfl
  have hmax : Int64.maxValue.toInt = 9223372036854775807 := rfl
  rw [fits64, hmin, hmax, Bool.and_eq_true, decide_eq_true_eq, decide_eq_true_eq]
  constructor <;> omega

/-- A numeral that is read up to a limit is read alike as one of 64 bits. -/
theorem integer64?_of_atMost? {limit n : Nat} {digits : List Char} (hl : limit ≤ 65535)
    (h : atMost? limit digits = some n) : integer64? digits = some ↑n := by
  obtain ⟨hu, hn⟩ := Option.filter_eq_some_iff.mp h
  have hm : digits.head? ≠ some '-' := by
    intro hd
    obtain ⟨rest, rfl⟩ := List.head?_eq_some_iff.mp hd
    have hnone : unsigned? ('-' :: rest) = none := rfl
    rw [hnone] at hu
    cases hu
  have hs : signed? digits = some ↑n := by
    rw [signed?_of_no_minus hm, hu]
    rfl
  exact Option.filter_eq_some_iff.mpr
    ⟨hs, fits64_of_le (Nat.le_trans (of_decide_eq_true hn) hl)⟩

end Number

namespace Tag

variable {t : Tag} {attr v : String} {least greatest : Int}

/-- A value with a minus in front. -/
def Minus (v : String) : Prop :=
  (Text.trimChars v.toList).head? = some '-'

instance : DecidablePred Minus :=
  fun v => inferInstanceAs (Decidable ((Text.trimChars v.toList).head? = some '-'))

/-- The ends of the range of an attribute that holds a number. -/
def range? (t : Tag) (attr : String) : Option (Int × Int) :=
  (t.rule? attr).bind fun a =>
    match a.kind with
    | .range least greatest => some (least, greatest)
    | _ => none

theorem rule_of_range? (h : t.range? attr = some (least, greatest)) :
    ∃ a, t.rule? attr = some a ∧ a.kind = .range least greatest := by
  obtain ⟨a, ha, hk⟩ := Option.bind_eq_some_iff.mp h
  split at hk
  next hr =>
    cases hk
    exact ⟨a, ha, hr⟩
  · cases hk

/-- The vocabulary has no range with numbers below zero. -/
theorem least_nonneg (h : t.range? attr = some (least, greatest)) : 0 ≤ least := by
  obtain ⟨a, ha, hk⟩ := rule_of_range? h
  obtain ⟨r, hr, ha⟩ := Option.bind_eq_some_iff.mp ha
  have hall : ∀ r ∈ Markup.elements, ∀ a ∈ r.attributes, ∀ least greatest,
      a.kind = .range least greatest → 0 ≤ least := by
    simp +contextual [Markup.elements, Markup.optional, Markup.required, Markup.encodingRule,
      Markup.byteRange]
  exact hall r (List.mem_of_find?_eq_some hr) a (List.mem_of_find?_eq_some ha) _ _ hk

/-- The number that the vocabulary reads in a value of a sound tag. -/
theorem Sound.integer64? (h : t.Sound) (hr : t.range? attr = some (least, greatest))
    (hv : t.attributes.get? attr = some v) :
    ∃ n, Number.integer64? (Text.trimChars v.toList) = some n ∧ least ≤ n ∧ n ≤ greatest := by
  obtain ⟨a, ha, hk⟩ := rule_of_range? hr
  have hb := h.breach?_eq_none ha hv
  rw [AttributeRule.breach?, hk] at hb
  dsimp only at hb
  split at hb
  · cases hb
  next n hn =>
    split at hb
    next hr => exact ⟨n, hn, hr⟩
    · cases hb

theorem nonEmpty?_of_value {attributes : Attributes} (hv : attributes.get? attr = some v)
    (hne : v ≠ "") : attributes.nonEmpty? attr = some v := by
  rw [Attributes.nonEmpty?, hv]
  exact Option.filter_eq_some_iff.mpr ⟨rfl, decide_eq_true hne⟩

/-- How the compiler reads a value that is there. -/
theorem number?_of_value {limit : Nat} (hv : t.attributes.get? attr = some v) (hne : v ≠ "") :
    t.number? attr limit = match Number.atMost? limit (Text.trimChars v.toList) with
      | some n => .ok (some n)
      | none => .error (.attributeRange t.name attr v limit) := by
  cases hn : Number.atMost? limit (Text.trimChars v.toList) with
  | none | some n => simp only [Tag.number?, nonEmpty?_of_value hv hne, hn]

/-! ### Numbers in attributes -/

/-- The number that the vocabulary reads in an attribute. -/
def integer? (t : Tag) (attr : String) : Option Int :=
  (t.attributes.get? attr).bind fun v => Number.integer64? (Text.trimChars v.toList)

/-- A number that the compiler reads keeps to its limit. -/
theorem le_of_number? {limit n : Nat} (h : t.number? attr limit = .ok (some n)) : n ≤ limit := by
  rw [Tag.number?] at h
  split at h
  · cases h
  · split at h
    next hn =>
      rw [← Option.some.inj (Except.ok.inj h)]
      exact of_decide_eq_true (Option.filter_eq_some_iff.mp hn).2
    · cases h

/-- **WHAT THE COMPILER READS THE VOCABULARY READS**, on every tag: the same number,
    or none at all. -/
theorem integer?_of_number? {limit : Nat} {n : Option Nat} (hl : limit ≤ 65535)
    (h : t.number? attr limit = .ok n) : t.integer? attr = n.map Int.ofNat := by
  cases hv : t.attributes.get? attr with
  | none =>
      rw [Tag.number?, Attributes.nonEmpty?, hv] at h
      rw [integer?, hv, ← Except.ok.inj h]
      rfl
  | some v =>
      rw [integer?, hv, Option.bind_some]
      by_cases hne : v = ""
      -- An empty value counts as none to the compiler, and it is no numeral.
      · rw [Tag.number?, Attributes.nonEmpty?, hv, hne] at h
        rw [hne, ← Except.ok.inj h]
        rfl
      · rw [number?_of_value hv hne] at h
        split at h
        next m hm =>
          rw [← Except.ok.inj h]
          exact Number.integer64?_of_atMost? hl hm
        · cases h

theorem integer?_of_word? {n : Option Nat} (h : t.number? attr 65535 = .ok n) :
    t.integer? attr = (n.map UInt16.ofNat).map fun n => (n.toNat : Int) := by
  rw [integer?_of_number? (Nat.le_refl 65535) h]
  cases n with
  | none => rfl
  | some n =>
      have hlt : n < 65536 := Nat.lt_succ_of_le (le_of_number? h)
      rw [Option.map_some, Option.map_some, Option.map_some, UInt16.toNat_ofNat_of_lt' hlt]
      rfl

theorem integer?_of_byte? {n : Option UInt8} (h : t.byte? attr = .ok n) :
    t.integer? attr = n.map fun n => (n.toNat : Int) := by
  obtain ⟨m, hm, rfl⟩ := map_eq_ok h
  rw [integer?_of_number? (by decide) hm]
  cases m with
  | none => rfl
  | some m =>
      have hlt : m < 256 := Nat.lt_succ_of_le (le_of_number? hm)
      rw [Option.map_some, Option.map_some, Option.map_some, UInt8.toNat_ofNat_of_lt' hlt]
      rfl

/-- A byte with a default is the number in the attribute, and the default where
    there is no number. -/
theorem integer?_of_byteOr {default n : UInt8} (h : t.byteOr attr default = .ok n) :
    (t.integer? attr).getD default.toNat = n.toNat := by
  obtain ⟨b, hb, rfl⟩ := map_eq_ok h
  rw [integer?_of_byte? hb]
  cases b <;> rfl

/-- **THE COMPILER READS A SOUND NUMBER AS THE VOCABULARY DOES**, unless it has a
    minus in front: then it is zero to the one and an error to the other. -/
theorem Sound.number? (h : t.Sound) (hr : t.range? attr = some (least, greatest))
    (hv : t.attributes.get? attr = some v) :
    ∃ n : Nat, Number.integer64? (Text.trimChars v.toList) = some ↑n ∧ least ≤ n ∧ n ≤ greatest
      ∧ (Minus v → n = 0)
      ∧ ∀ limit : Nat, greatest ≤ limit → t.number? attr limit
        = if Minus v then .error (.attributeRange t.name attr v limit) else .ok (some n) := by
  obtain ⟨z, hz, hle, hge⟩ := h.integer64? hr hv
  obtain ⟨n, rfl⟩ := Int.eq_ofNat_of_zero_le (Int.le_trans (least_nonneg hr) hle)
  obtain ⟨hs, -⟩ := Option.filter_eq_some_iff.mp hz
  have hne : v ≠ "" := by
    rintro rfl
    cases hs
  -- With a minus the number is at most zero, and no rule goes below zero.
  by_cases hm : Minus v
  · obtain ⟨hn, hu⟩ := Number.signed?_of_minus hm hs
    refine ⟨n, hz, hle, hge, fun _ => by omega, ?_⟩
    intro limit _
    have hread : Number.atMost? limit (Text.trimChars v.toList) = none := by
      rw [Number.atMost?, hu]
      rfl
    rw [number?_of_value hv hne, hread, if_pos hm]
  · rw [Number.signed?_of_no_minus hm] at hs
    obtain ⟨m, hu, hmn⟩ := Option.map_eq_some_iff.mp hs
    have he : m = n := Int.ofNat.inj hmn
    refine ⟨n, hz, hle, hge, fun k => absurd k hm, ?_⟩
    intro limit hg
    have hread : Number.atMost? limit (Text.trimChars v.toList) = some n := by
      rw [Number.atMost?, hu, he]
      exact Option.filter_eq_some_iff.mpr ⟨rfl, decide_eq_true (by omega)⟩
    rw [number?_of_value hv hne, hread, if_neg hm]

/-- How the compiler converts a value that the vocabulary reads as `n`: to `n`, and
    never to a default, unless there is a minus in front. -/
structure Converted (t : Tag) (attr v : String) (greatest : Int) (n : Nat) : Prop where
  number : ∀ limit : Nat, greatest ≤ limit → t.number? attr limit
    = if Minus v then .error (.attributeRange t.name attr v limit) else .ok (some n)
  byte : greatest ≤ 255 → ∃ b : UInt8, b.toNat = n
    ∧ (t.byte? attr
      = if Minus v then .error (.attributeRange t.name attr v 255) else .ok (some b))
    ∧ ∀ default : UInt8, t.byteOr attr default
      = if Minus v then .error (.attributeRange t.name attr v 255) else .ok b

theorem Sound.converted (h : t.Sound) (hr : t.range? attr = some (least, greatest))
    (hv : t.attributes.get? attr = some v) :
    ∃ n : Nat, t.integer? attr = some ↑n ∧ least ≤ n ∧ n ≤ greatest ∧ (Minus v → n = 0)
      ∧ t.Converted attr v greatest n := by
  obtain ⟨n, hn, hle, hge, hz, hread⟩ := h.number? hr hv
  refine ⟨n, ?_, hle, hge, hz, hread, ?_⟩
  · rw [integer?, hv, Option.bind_some, hn]
  · intro hg
    have hbyte : t.byte? attr
        = if Minus v then .error (.attributeRange t.name attr v 255)
          else .ok (some (UInt8.ofNat n)) := by
      rw [Tag.byte?, hread 255 hg]
      split <;> rfl
    refine ⟨UInt8.ofNat n, UInt8.toNat_ofNat_of_lt' (show n < 256 by omega), hbyte, ?_⟩
    intro default
    rw [byteOr, hbyte]
    split <;> rfl

end Tag

end ReceiptPrinter
