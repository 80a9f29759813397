import ReceiptPrinter.Markup.Schema
import ReceiptPrinter.Proofs.Lookup
import ReceiptPrinter.Proofs.Number.Decimal

/-! # Conformance — a grammar for receipts

    The vocabulary is a table, and validation looks elements up in it.  Here
    the same table is read as a GRAMMAR: which values an attribute may have,
    which nodes an element may contain, and from these which trees are receipts
    (`Element.Conforms`).  The grammar finds nothing and reports nothing.

    Each part of a check is matched to its part of the grammar.  Two facts
    about the table carry this: no two rules have the same name, so that the
    rule which is found is the only one there is, and no range leaves 64 bits,
    so that a number which cannot be read is in none of them. -/

namespace ReceiptPrinter.Markup

/-! ## The grammar -/

/-- The values that a kind of attribute may have. -/
inductive ValueKind.Admits : ValueKind → String → Prop
  | any (v : String) : Admits .any v
  /-- A numeral, with blanks around it or without, of a number in the range. -/
  | number {least greatest n : Int} {cs : List Char} {v : String} (around : Text.Around cs v)
      (numeral : Number.Decimal cs n) (low : least ≤ n) (high : n ≤ greatest) :
      Admits (.range least greatest) v
  | word {allowed : List String} {v : String} (listed : v ∈ allowed) : Admits (.oneOf allowed) v
  | wordAnyCase {allowed : List String} {w v : String} (listed : w ∈ allowed)
      (same : Text.foldCase w = Text.foldCase v) : Admits (.oneOfAnyCase allowed) v

/-- The nodes that an element may contain. -/
inductive Content.Admits : Content → Node → Prop
  | text (content : String) : Admits .text (.text content)
  | mixedText (content : String) : Admits .mixed (.text content)
  | mixedElement {name : String} (inner : name ≠ "receipt") (attributes : Attributes)
      (children : List Node) : Admits .mixed (.element name attributes children)

/-- An attribute that a rule allows, with a value of its kind. -/
def ElementRule.AdmitsAttribute (r : ElementRule) (attr : String × String) : Prop :=
  ∃ a ∈ r.attributes, a.name = attr.1 ∧ a.kind.Admits attr.2

/-- Attributes among which one is there and not empty. -/
def Attributes.Has (attributes : Attributes) (name : String) : Prop :=
  ∃ v, v ≠ "" ∧ attributes.get? name = some v

/-- The nodes that may stand in a receipt. -/
inductive Node.Conforms : Node → Prop
  | text (content : String) : Conforms (.text content)
  | element {r : ElementRule} {attributes : Attributes} {children : List Node}
      (known : r ∈ elements)
      (admitted : ∀ attr ∈ attributes, r.AdmitsAttribute attr)
      (present : ∀ a ∈ r.attributes, a.required = true → attributes.Has a.name)
      (content : ∀ child ∈ children, r.content.Admits child)
      (inner : ∀ child ∈ children, child.Conforms) :
      Conforms (.element r.name attributes children)

/-- The trees that are receipts. -/
structure Element.Conforms (root : Element) : Prop where
  name : root.name = "receipt"
  tree : root.toNode.Conforms

/-! ## The table -/

theorem elements_nodup : (elements.map ElementRule.name).Nodup := by
  decide

theorem attributes_nodup :
    ∀ r ∈ elements, (r.attributes.map AttributeRule.name).Nodup := by
  decide

theorem rule?_eq_some_iff {name : String} {r : ElementRule} :
    rule? name = some r ↔ r ∈ elements ∧ r.name = name :=
  find?_name_eq_some_iff elements_nodup

theorem rule?_eq_none_iff {name : String} : rule? name = none ↔ ∀ r ∈ elements, r.name ≠ name := by
  rw [rule?, List.find?_eq_none]
  simp only [beq_iff_eq, ne_eq]

section

variable {r : ElementRule} {a : AttributeRule} {v : String}

theorem attribute?_eq_some_iff (known : r ∈ elements) {name : String} :
    r.attribute? name = some a ↔ a ∈ r.attributes ∧ a.name = name :=
  find?_name_eq_some_iff (attributes_nodup r known)

theorem attribute?_eq_none_iff {name : String} :
    r.attribute? name = none ↔ ∀ a ∈ r.attributes, a.name ≠ name := by
  rw [ElementRule.attribute?, List.find?_eq_none]
  simp only [beq_iff_eq, ne_eq]

/-- Whether the ends of a range fit into 64 bits. -/
def ValueKind.fits : ValueKind → Bool
  | .range least greatest => Number.fits64 least && Number.fits64 greatest
  | _ => true

/-- No range of the vocabulary leaves 64 bits. -/
theorem fits_of_known : ∀ r ∈ elements, ∀ a ∈ r.attributes, a.kind.fits = true := by
  decide

/-! ## Checks and grammar -/

/-- The number that is read in a value is the one that its numeral writes. -/
theorem integer64?_eq_some_iff {n : Int} :
    Number.integer64? (Text.trimChars v.toList) = some n
      ↔ (∃ cs, Text.Around cs v ∧ Number.Decimal cs n) ∧ Number.fits64 n = true := by
  rw [Number.integer64?, Option.filter_eq_some_iff, Number.signed?_eq_some_iff]
  refine and_congr_left fun _ => ⟨fun h => ⟨_, Text.around_trimChars v, h⟩, ?_⟩
  rintro ⟨cs, around, numeral⟩
  rwa [(Text.around_iff numeral.unblank v).mp around]

/-- A number between two that fit into 64 bits fits too. -/
theorem fits64_of_between {least greatest n : Int}
    (hfits : (ValueKind.range least greatest).fits = true) (low : least ≤ n)
    (high : n ≤ greatest) : Number.fits64 n = true := by
  simp only [ValueKind.fits, Number.fits64, Bool.and_eq_true, decide_eq_true_eq] at hfits ⊢
  omega

/-- A value breaks no rule just if its kind admits it. -/
theorem breach?_eq_none_iff (hfits : a.kind.fits = true) :
    a.breach? v = none ↔ a.kind.Admits v := by
  rw [AttributeRule.breach?]
  cases hk : a.kind with
  | any => exact ⟨fun _ => .any v, fun _ => rfl⟩
  | range least greatest =>
      rw [hk] at hfits
      dsimp only
      constructor
      · intro h
        split at h
        · cases h
        next n hn =>
          split at h
          next hr =>
            obtain ⟨⟨cs, around, numeral⟩, -⟩ := integer64?_eq_some_iff.mp hn
            exact .number around numeral hr.1 hr.2
          · cases h
      · rintro (_ | ⟨around, numeral, low, high⟩)
        -- A number in the range fits into 64 bits, so it can be read.
        have hn := integer64?_eq_some_iff.mpr
          ⟨⟨_, around, numeral⟩, fits64_of_between hfits low high⟩
        rw [hn]
        exact if_pos ⟨low, high⟩
  | oneOf allowed =>
      dsimp only
      rw [ite_eq_left_iff]
      constructor
      · intro h
        by_cases hm : allowed.contains v = true
        · exact .word (List.contains_iff_mem.mp hm)
        · exact absurd (h hm) (Option.some_ne_none _)
      · rintro (_ | _ | listed) hm
        exact absurd (List.contains_iff_mem.mpr listed) hm
  | oneOfAnyCase allowed =>
      dsimp only
      rw [ite_eq_left_iff]
      constructor
      · intro h
        by_cases hm : allowed.any (Text.sameName · v) = true
        · obtain ⟨w, hw, same⟩ := List.any_eq_true.mp hm
          exact .wordAnyCase hw ((Text.sameName_iff w v).mp same)
        · exact absurd (h hm) (Option.some_ne_none _)
      · rintro (_ | _ | _ | ⟨listed, same⟩) hm
        exact absurd (List.any_eq_true.mpr ⟨_, listed, (Text.sameName_iff _ v).mpr same⟩) hm

/-- What is wrong with an attribute of an element. -/
def ElementRule.attributeBreach? (r : ElementRule) (attr : String × String) : Option Breach :=
  match r.attribute? attr.1 with
  | some a => a.breach? attr.2
  | none => some (.notAllowed attr.1 r.name)

theorem attributeBreaches_eq (attributes : Attributes) :
    r.attributeBreaches attributes = attributes.filterMap r.attributeBreach? :=
  rfl

/-- An attribute breaks no rule just if its element's rule admits it. -/
theorem attributeBreach?_eq_none_iff (known : r ∈ elements) {attr : String × String} :
    r.attributeBreach? attr = none ↔ r.AdmitsAttribute attr := by
  rw [ElementRule.attributeBreach?]
  constructor
  · intro h
    split at h
    next a ha =>
      obtain ⟨hm, hname⟩ := (attribute?_eq_some_iff known).mp ha
      exact ⟨a, hm, hname, (breach?_eq_none_iff (fits_of_known r known a hm)).mp h⟩
    · cases h
  · rintro ⟨a, hm, hname, admits⟩
    rw [(attribute?_eq_some_iff known).mpr ⟨hm, hname⟩]
    exact (breach?_eq_none_iff (fits_of_known r known a hm)).mpr admits

/-- An attribute is missing just if it is not there or is empty. -/
theorem nonEmpty?_eq_none_iff {attributes : Attributes} {name : String} :
    attributes.nonEmpty? name = none ↔ ¬ attributes.Has name := by
  rw [Option.eq_none_iff_forall_ne_some, Attributes.Has, not_exists]
  refine forall_congr' fun v => not_congr ?_
  rw [Attributes.nonEmpty?, Option.filter_eq_some_iff, decide_eq_true_iff, and_comm]

/-- A child breaks no rule just if the content of its element admits it. -/
theorem childBreach?_eq_none_iff {child : Node} :
    r.childBreach? child = none ↔ r.content.Admits child := by
  rw [ElementRule.childBreach?]
  cases hc : r.content with
  | empty =>
      cases child <;> exact ⟨fun h => absurd h (Option.some_ne_none _), nofun⟩
  | text =>
      cases child with
      | text content => exact ⟨fun _ => .text content, fun _ => rfl⟩
      | element name attributes children =>
          exact ⟨fun h => absurd h (Option.some_ne_none _), nofun⟩
  | mixed =>
      cases child with
      | text content => exact ⟨fun _ => .mixedText content, fun _ => rfl⟩
      | element name attributes children =>
          by_cases hn : name = "receipt"
          · refine ⟨fun h => ?_, ?_⟩
            · rw [show (Node.element name attributes children).name? = some name from rfl] at h
              dsimp only at h
              rw [if_pos hn] at h
              cases h
            · rintro (_ | _ | ⟨inner, _, _⟩)
              exact absurd hn inner
          · exact ⟨fun _ => .mixedElement hn attributes children, fun _ => if_neg hn⟩

/-- An element breaks no rule by itself just if the grammar admits its attributes
    and its children. -/
theorem breaches_eq_nil_iff (known : r ∈ elements) {attributes : Attributes}
    {children : List Node} :
    r.breaches attributes children = []
      ↔ (∀ attr ∈ attributes, r.AdmitsAttribute attr)
        ∧ (∀ a ∈ r.attributes, a.required = true → attributes.Has a.name)
        ∧ ∀ child ∈ children, r.content.Admits child := by
  have hmissing : r.missingBreaches attributes = []
      ↔ ∀ a ∈ r.attributes, a.required = true → attributes.Has a.name := by
    rw [ElementRule.missingBreaches, List.filterMap_eq_nil_iff]
    simp only [List.mem_filter, and_imp, ite_eq_right_iff, reduceCtorEq, imp_false,
      nonEmpty?_eq_none_iff, not_not]
  rw [ElementRule.breaches, List.append_eq_nil_iff, List.append_eq_nil_iff, and_assoc, hmissing,
    attributeBreaches_eq, List.filterMap_eq_nil_iff, List.filterMap_eq_nil_iff]
  simp only [attributeBreach?_eq_none_iff known, childBreach?_eq_none_iff]

end

/-! ## Trees -/

/-- The grammar for an element of the vocabulary. -/
theorem conforms_element_iff {r : ElementRule} {name : String} (found : rule? name = some r)
    {attributes : Attributes} {children : List Node} :
    (Node.element name attributes children).Conforms
      ↔ r.breaches attributes children = [] ∧ ∀ child ∈ children, child.Conforms := by
  obtain ⟨known, rfl⟩ := rule?_eq_some_iff.mp found
  rw [breaches_eq_nil_iff known]
  constructor
  · intro h
    generalize hn : Node.element r.name attributes children = n at h
    cases h with
    | text content => cases hn
    | @element s _ _ other admitted present content inner =>
        obtain ⟨hname, rfl, rfl⟩ := Node.element.inj hn
        -- Rules of one name are one rule.
        have hs : rule? r.name = some s := rule?_eq_some_iff.mpr ⟨other, hname.symm⟩
        obtain rfl := Option.some.inj (found.symm.trans hs)
        exact ⟨⟨admitted, present, content⟩, inner⟩
  · rintro ⟨⟨admitted, present, content⟩, inner⟩
    exact .element known admitted present content inner

/-- Where no elements may stand the children conform by themselves. -/
theorem conforms_of_not_mixed {r : ElementRule} (hm : r.content ≠ .mixed) {child : Node}
    (h : r.content.Admits child) : child.Conforms := by
  generalize hc : r.content = c at h hm
  cases h with
  | text content => exact .text content
  | mixedText content => exact .text content
  | mixedElement _ _ _ => exact absurd rfl hm

mutual

/-- **A NODE WITHOUT VIOLATIONS CONFORMS TO THE GRAMMAR**, and the other way round. -/
theorem violations_node_eq_nil_iff (path : String) :
    ∀ n : Node, n.violations path = [] ↔ n.Conforms
  | .text content => ⟨fun _ => .text content, fun _ => rfl⟩
  | .element name attributes children => by
      rw [Node.violations]
      split
      next hr =>
        refine ⟨fun h => absurd h (List.cons_ne_nil _ _), ?_⟩
        intro h
        generalize hn : Node.element name attributes children = n at h
        cases h with
        | text content => cases hn
        | element known _ _ _ _ =>
            obtain ⟨rfl, -, -⟩ := Node.element.inj hn
            exact absurd rfl (rule?_eq_none_iff.mp hr _ known)
      next r hr =>
        rw [conforms_element_iff hr, List.append_eq_nil_iff, List.map_eq_nil_iff]
        refine and_congr_right fun hb => ?_
        split
        next hmixed => exact violations_children_eq_nil_iff path 1 children
        next hmixed =>
          -- Children are not visited here, and do not need to be: none is an element.
          obtain ⟨-, -, content⟩ :=
            (breaches_eq_nil_iff (rule?_eq_some_iff.mp hr).1).mp hb
          exact ⟨fun _ child hc => conforms_of_not_mixed hmixed (content child hc), fun _ => rfl⟩

theorem violations_children_eq_nil_iff (path : String) (place : Nat) :
    ∀ ns : List Node, childViolations path place ns = [] ↔ ∀ n ∈ ns, n.Conforms
  | [] => ⟨fun _ => List.forall_mem_nil _, fun _ => rfl⟩
  | .text content :: rest => by
      rw [List.forall_mem_cons, and_iff_right (Node.Conforms.text content)]
      exact violations_children_eq_nil_iff path place rest
  | .element name attributes children :: rest => by
      rw [List.forall_mem_cons, ← violations_node_eq_nil_iff (childPath path name place),
        ← violations_children_eq_nil_iff path (place + 1) rest]
      exact List.append_eq_nil_iff

end

/-- **A DOCUMENT WITHOUT VIOLATIONS IS A RECEIPT**, and the other way round. -/
theorem violations_eq_nil_iff (root : Element) : root.violations = [] ↔ root.Conforms := by
  rw [Element.violations, List.append_eq_nil_iff, violations_node_eq_nil_iff]
  constructor
  · rintro ⟨hname, tree⟩
    refine ⟨?_, tree⟩
    by_contra hne
    rw [if_neg hne] at hname
    cases hname
  · rintro ⟨hname, tree⟩
    exact ⟨if_pos hname, tree⟩

end ReceiptPrinter.Markup
