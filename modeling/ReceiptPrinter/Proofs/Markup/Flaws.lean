import Mathlib.Data.List.Sigma
import ReceiptPrinter.Proofs.Markup.Conformance

/-! # Flaws — what can be wrong with one element

    A `Site` is an element with its place in the tree.  What an element can do
    wrong is a `Flaw`: its attributes and children are told apart by their
    number, so two wrong children are two flaws.  `Site.Breaks` says by the
    grammar which flaws a site has, `Site.Tells` what may be said of each.

    The breaches that validation collects of an element are its flaws, each
    listed once and told as what it is.  That the breaches alone do not tell
    two flaws apart (two children may be misplaced in the same way) is why the
    flaws are listed beside them. -/

namespace ReceiptPrinter.Markup

/-! ## Sites and flaws -/

/-- An element and where it stands.  The address has its number among the
    elements beside it, and before it those of the elements around it. -/
structure Site where
  address : List Nat
  path : String
  name : String
  attributes : Attributes
  children : List Node

/-- What can be wrong with an element. -/
inductive Flaw where
  | root
  | unknown
  /-- The attribute of a number is not allowed or has a wrong value. -/
  | wrongAttribute (place : Nat)
  | missing (attr : String)
  /-- The child of a number may not stand there. -/
  | wrongChild (place : Nat)
deriving DecidableEq

/-- What is wrong with an element, by the grammar. -/
inductive Site.Breaks (s : Site) : Flaw → Prop
  | root (top : s.address = []) (other : s.name ≠ "receipt") : s.Breaks .root
  | unknown (h : ∀ r ∈ elements, r.name ≠ s.name) : s.Breaks .unknown
  | wrongAttribute {r : ElementRule} {place : Nat} {attr : String × String}
      (known : r ∈ elements) (named : r.name = s.name)
      (stands : s.attributes[place]? = some attr) (h : ¬ r.AdmitsAttribute attr) :
      s.Breaks (.wrongAttribute place)
  | missing {r : ElementRule} {a : AttributeRule} (known : r ∈ elements) (named : r.name = s.name)
      (ruled : a ∈ r.attributes) (required : a.required = true)
      (h : ¬ s.attributes.Has a.name) : s.Breaks (.missing a.name)
  | wrongChild {r : ElementRule} {place : Nat} {n : Node} (known : r ∈ elements)
      (named : r.name = s.name) (stands : s.children[place]? = some n)
      (h : ¬ r.content.Admits n) : s.Breaks (.wrongChild place)

/-- What is said of a value that an attribute may not have. -/
inductive AttributeRule.Refuses (a : AttributeRule) (v : String) : Breach → Prop
  | notInteger {least greatest : Int} (kind : a.kind = .range least greatest)
      (h : ∀ cs n, Text.Around cs v → Number.Decimal cs n → Number.fits64 n = false) :
      a.Refuses v (.notInteger a.name v)
  | outside {least greatest n : Int} {cs : List Char} (kind : a.kind = .range least greatest)
      (around : Text.Around cs v) (numeral : Number.Decimal cs n)
      (h : ¬ (least ≤ n ∧ n ≤ greatest)) : a.Refuses v (.outside a.name n least greatest)
  | notListed {allowed : List String}
      (kind : a.kind = .oneOf allowed ∨ a.kind = .oneOfAnyCase allowed) :
      a.Refuses v (.notListed a.name v allowed)

/-- What is said of a flaw: it names the attribute, the child or the element that
    it is about. -/
inductive Site.Tells (s : Site) : Flaw → Breach → Prop
  | root : s.Tells .root .rootName
  | unknown : s.Tells .unknown (.unknownElement s.name)
  | notAllowed {r : ElementRule} {place : Nat} {attr : String × String} (known : r ∈ elements)
      (named : r.name = s.name) (stands : s.attributes[place]? = some attr)
      (h : ∀ a ∈ r.attributes, a.name ≠ attr.1) :
      s.Tells (.wrongAttribute place) (.notAllowed attr.1 s.name)
  | refused {r : ElementRule} {a : AttributeRule} {place : Nat} {v : String} {b : Breach}
      (known : r ∈ elements) (named : r.name = s.name) (ruled : a ∈ r.attributes)
      (stands : s.attributes[place]? = some (a.name, v)) (h : a.Refuses v b) :
      s.Tells (.wrongAttribute place) b
  | missing (attr : String) : s.Tells (.missing attr) (.missing attr)
  | notEmpty {place : Nat} {content : String}
      (stands : s.children[place]? = some (.text content)) :
      s.Tells (.wrongChild place) (.notEmpty s.name)
  | misplaced {place : Nat} {n : Node} {name : String} (stands : s.children[place]? = some n)
      (element : n.name? = some name) : s.Tells (.wrongChild place) (.misplaced name s.name)
  | nestedReceipt {place : Nat} {n : Node} (stands : s.children[place]? = some n)
      (element : n.name? = some "receipt") : s.Tells (.wrongChild place) .nestedReceipt

/-! ## The flaws of a site, listed -/

section

variable {α : Type} {flaw : Nat → Flaw} {breach? : α → Option Breach} {l : List α}

/-- What is wrong with the members of a list, each with its number. -/
def numbered (flaw : Nat → Flaw) (breach? : α → Option Breach) (l : List α) :
    List (Flaw × Breach) :=
  l.zipIdx.filterMap fun x => (breach? x.1).map (flaw x.2, ·)

theorem map_snd_numbered : (numbered flaw breach? l).map Prod.snd = l.filterMap breach? := by
  have h : ∀ x : α × Nat,
      ((breach? x.1).map (flaw x.2, ·)).map Prod.snd = (breach? ∘ Prod.fst) x := by
    intro x
    rw [Option.map_map]
    exact Option.map_id'
  rw [numbered, List.map_filterMap, funext h, ← List.filterMap_map, List.zipIdx_map_fst]

theorem mem_numbered {g : Flaw} {b : Breach} :
    (g, b) ∈ numbered flaw breach? l
      ↔ ∃ place x, l[place]? = some x ∧ breach? x = some b ∧ flaw place = g := by
  rw [numbered, List.mem_filterMap]
  constructor
  · rintro ⟨⟨x, place⟩, hx, h⟩
    obtain ⟨c, hc, hg⟩ := Option.map_eq_some_iff.mp h
    obtain ⟨rfl, rfl⟩ := Prod.mk.inj hg
    exact ⟨place, x, List.mem_zipIdx_iff_getElem?.mp hx, hc, rfl⟩
  · rintro ⟨place, x, hx, hb, rfl⟩
    exact ⟨(x, place), List.mem_zipIdx_iff_getElem?.mpr hx, by rw [hb]; rfl⟩

/-- No number comes twice. -/
theorem nodup_numbered (inj : Function.Injective flaw) :
    ((numbered flaw breach? l).map Prod.fst).Nodup := by
  have hplaces := List.pairwise_map.mp (List.nodup_zipIdx_map_snd l)
  rw [List.Nodup, List.pairwise_map, numbered, List.pairwise_filterMap]
  refine hplaces.imp ?_
  rintro x y hxy _ hx _ hy he
  obtain ⟨b, -, rfl⟩ := Option.map_eq_some_iff.mp hx
  obtain ⟨c, -, rfl⟩ := Option.map_eq_some_iff.mp hy
  exact hxy (inj he)

end

/-- The attributes that an element lacks, as flaws. -/
def ElementRule.lacks (r : ElementRule) (attributes : Attributes) : List (Flaw × Breach) :=
  (r.attributes.filter (·.required)).filterMap fun a =>
    if attributes.nonEmpty? a.name = none then some (.missing a.name, .missing a.name) else none

/-- The flaws that a rule finds in an element. -/
def ElementRule.flaws (r : ElementRule) (attributes : Attributes) (children : List Node) :
    List (Flaw × Breach) :=
  numbered .wrongAttribute r.attributeBreach? attributes ++ r.lacks attributes ++
    numbered .wrongChild r.childBreach? children

/-- The flaws of a site, and what is said of each. -/
def Site.flaws (s : Site) : List (Flaw × Breach) :=
  (if s.address = [] ∧ s.name ≠ "receipt" then [(.root, .rootName)] else []) ++
    match rule? s.name with
    | none => [(.unknown, .unknownElement s.name)]
    | some r => r.flaws s.attributes s.children

/-- The violations of a site. -/
def Site.violations (s : Site) : List Violation :=
  s.flaws.map fun flaw => ⟨s.path, flaw.2⟩

section

variable {r : ElementRule} {attributes : Attributes} {children : List Node}

theorem map_snd_lacks : (r.lacks attributes).map Prod.snd = r.missingBreaches attributes := by
  rw [ElementRule.lacks, ElementRule.missingBreaches, List.map_filterMap]
  refine congrArg (List.filterMap · _) (funext fun a => ?_)
  split <;> rfl

theorem mem_lacks {g : Flaw} {b : Breach} :
    (g, b) ∈ r.lacks attributes
      ↔ ∃ a ∈ r.attributes, a.required = true ∧ ¬ attributes.Has a.name
        ∧ .missing a.name = g ∧ .missing a.name = b := by
  simp only [ElementRule.lacks, List.mem_filterMap, List.mem_filter, Option.ite_none_right_eq_some,
    Option.some.injEq, Prod.mk.injEq, nonEmpty?_eq_none_iff, and_assoc]

theorem nodup_lacks (known : r ∈ elements) : ((r.lacks attributes).map Prod.fst).Nodup := by
  have hnames := List.pairwise_map.mp (attributes_nodup r known)
  rw [List.Nodup, List.pairwise_map, ElementRule.lacks, List.pairwise_filterMap]
  refine (hnames.filter _).imp ?_
  rintro x y hxy _ hx _ hy he
  obtain ⟨-, hx⟩ := Option.ite_none_right_eq_some.mp hx
  obtain ⟨-, hy⟩ := Option.ite_none_right_eq_some.mp hy
  obtain rfl := Option.some.inj hx
  obtain rfl := Option.some.inj hy
  exact hxy (Flaw.missing.inj he)

theorem map_snd_flaws :
    (r.flaws attributes children).map Prod.snd = r.breaches attributes children := by
  rw [ElementRule.flaws, List.map_append, List.map_append, map_snd_numbered, map_snd_numbered,
    map_snd_lacks]
  rfl

theorem mem_ruleFlaws {g : Flaw} {b : Breach} :
    (g, b) ∈ r.flaws attributes children
      ↔ (∃ place attr, attributes[place]? = some attr ∧ r.attributeBreach? attr = some b
            ∧ .wrongAttribute place = g)
        ∨ (∃ a ∈ r.attributes, a.required = true ∧ ¬ attributes.Has a.name
            ∧ .missing a.name = g ∧ .missing a.name = b)
        ∨ ∃ place child, children[place]? = some child ∧ r.childBreach? child = some b
            ∧ .wrongChild place = g := by
  rw [ElementRule.flaws, List.mem_append, List.mem_append, mem_numbered, mem_lacks, mem_numbered,
    or_assoc]

theorem nodup_ruleFlaws (known : r ∈ elements) :
    ((r.flaws attributes children).map Prod.fst).Nodup := by
  rw [ElementRule.flaws, List.map_append, List.map_append, List.nodup_append, List.nodup_append]
  refine ⟨⟨nodup_numbered fun _ _ => Flaw.wrongAttribute.inj, nodup_lacks known, ?_⟩,
    nodup_numbered fun _ _ => Flaw.wrongChild.inj, ?_⟩
  -- The three parts have flaws of three kinds.
  · intro g hg h hh
    obtain ⟨⟨g, b⟩, hm, rfl⟩ := List.mem_map.mp hg
    obtain ⟨⟨h, c⟩, hn, rfl⟩ := List.mem_map.mp hh
    obtain ⟨_, _, _, _, rfl⟩ := mem_numbered.mp hm
    obtain ⟨_, _, _, _, rfl, _⟩ := mem_lacks.mp hn
    exact Flaw.noConfusion
  · intro g hg h hh
    rw [← List.map_append] at hg
    obtain ⟨⟨g, b⟩, hm, rfl⟩ := List.mem_map.mp hg
    obtain ⟨⟨h, c⟩, hn, rfl⟩ := List.mem_map.mp hh
    obtain ⟨_, _, _, _, rfl⟩ := mem_numbered.mp hn
    rcases List.mem_append.mp hm with hm | hm
    · obtain ⟨_, _, _, _, rfl⟩ := mem_numbered.mp hm
      exact Flaw.noConfusion
    · obtain ⟨_, _, _, _, rfl, _⟩ := mem_lacks.mp hm
      exact Flaw.noConfusion

end

/-- A breach of a value tells how it differs from what its kind admits. -/
theorem AttributeRule.refuses_of_breach? {a : AttributeRule} {v : String} {b : Breach}
    (h : a.breach? v = some b) : a.Refuses v b := by
  rw [AttributeRule.breach?] at h
  split at h
  · cases h
  next least greatest kind =>
    split at h
    next hn =>
      obtain rfl := Option.some.inj h
      refine .notInteger kind fun cs n around numeral => ?_
      rw [← Bool.not_eq_true]
      intro hfits
      have hn' := integer64?_eq_some_iff.mpr ⟨⟨cs, around, numeral⟩, hfits⟩
      exact absurd (hn.symm.trans hn') (Option.some_ne_none n).symm
    next n hn =>
      obtain ⟨out, h⟩ := Option.ite_none_left_eq_some.mp h
      obtain rfl := Option.some.inj h
      obtain ⟨⟨cs, around, numeral⟩, -⟩ := integer64?_eq_some_iff.mp hn
      exact .outside kind around numeral out
  next allowed kind =>
    obtain ⟨-, h⟩ := Option.ite_none_left_eq_some.mp h
    obtain rfl := Option.some.inj h
    exact .notListed (.inl kind)
  next allowed kind =>
    obtain ⟨-, h⟩ := Option.ite_none_left_eq_some.mp h
    obtain rfl := Option.some.inj h
    exact .notListed (.inr kind)

namespace Site

variable {s : Site} {flaw : Flaw} {b : Breach}

/-- A breach of a child is about that child. -/
theorem tells_of_childBreach? {r : ElementRule} (named : r.name = s.name) {place : Nat} {n : Node}
    (stands : s.children[place]? = some n) (h : r.childBreach? n = some b) :
    s.Tells (.wrongChild place) b := by
  rw [ElementRule.childBreach?, named] at h
  split at h
  next hname =>
    obtain rfl := Option.some.inj h
    cases n with
    | text content => exact .notEmpty stands
    | element name attributes children => cases hname
  next hname =>
    obtain rfl := Option.some.inj h
    exact .misplaced stands hname
  next hname =>
    obtain rfl := Option.some.inj h
    exact .misplaced stands hname
  next hname =>
    obtain ⟨rfl, h⟩ := Option.ite_none_right_eq_some.mp h
    obtain rfl := Option.some.inj h
    exact .nestedReceipt stands hname
  · cases h

/-- A site whose name is in the vocabulary has the flaws that its rule finds. -/
theorem mem_flaws :
    (flaw, b) ∈ s.flaws
      ↔ (s.address = [] ∧ s.name ≠ "receipt") ∧ flaw = .root ∧ b = .rootName
        ∨ rule? s.name = none ∧ flaw = .unknown ∧ b = .unknownElement s.name
        ∨ ∃ r, rule? s.name = some r ∧ (flaw, b) ∈ r.flaws s.attributes s.children := by
  rw [flaws, List.mem_append]
  refine or_congr ?_ ?_
  · split
    next h => simp only [List.mem_singleton, Prod.mk.injEq, ne_eq, h, true_and, not_false_eq_true]
    next h => simp only [List.not_mem_nil, h, false_and]
  · cases rule? s.name with
    | none => simp
    | some r => simp

/-- The flaws that are listed are those that the grammar knows. -/
theorem breaks_iff : flaw ∈ s.flaws.map Prod.fst ↔ s.Breaks flaw := by
  rw [List.mem_map]
  constructor
  · rintro ⟨⟨g, b⟩, hm, rfl⟩
    rcases mem_flaws.mp hm with ⟨⟨top, other⟩, rfl, -⟩ | ⟨hr, rfl, -⟩ | ⟨r, hr, hf⟩
    · exact .root top other
    · exact .unknown (rule?_eq_none_iff.mp hr)
    · obtain ⟨known, named⟩ := rule?_eq_some_iff.mp hr
      rcases mem_ruleFlaws.mp hf with
        ⟨place, attr, stands, hb, rfl⟩ | ⟨a, ruled, required, lacking, rfl, -⟩
          | ⟨place, n, stands, hb, rfl⟩
      · refine .wrongAttribute known named stands ?_
        rw [← attributeBreach?_eq_none_iff known, hb]
        exact Option.some_ne_none b
      · exact .missing known named ruled required lacking
      · refine .wrongChild known named stands ?_
        rw [← childBreach?_eq_none_iff, hb]
        exact Option.some_ne_none b
  · have ruled : ∀ {r : ElementRule} {b : Breach}, r ∈ elements → r.name = s.name →
        (flaw, b) ∈ r.flaws s.attributes s.children → ∃ x ∈ s.flaws, x.1 = flaw :=
      fun known named hm =>
        ⟨_, mem_flaws.mpr (.inr (.inr ⟨_, rule?_eq_some_iff.mpr ⟨known, named⟩, hm⟩)), rfl⟩
    intro h
    cases h with
    | root top other => exact ⟨_, mem_flaws.mpr (.inl ⟨⟨top, other⟩, rfl, rfl⟩), rfl⟩
    | unknown h =>
        exact ⟨_, mem_flaws.mpr (.inr (.inl ⟨rule?_eq_none_iff.mpr h, rfl, rfl⟩)), rfl⟩
    | wrongAttribute known named stands h =>
        obtain ⟨b, hb⟩ := Option.ne_none_iff_exists'.mp
          (mt (attributeBreach?_eq_none_iff known).mp h)
        exact ruled known named (mem_ruleFlaws.mpr (.inl ⟨_, _, stands, hb, rfl⟩))
    | missing known named mem required h =>
        exact ruled known named (mem_ruleFlaws.mpr (.inr (.inl ⟨_, mem, required, h, rfl, rfl⟩)))
    | wrongChild known named stands h =>
        obtain ⟨b, hb⟩ := Option.ne_none_iff_exists'.mp (mt childBreach?_eq_none_iff.mp h)
        exact ruled known named (mem_ruleFlaws.mpr (.inr (.inr ⟨_, _, stands, hb, rfl⟩)))

/-- No flaw is listed twice. -/
theorem nodup_flaws (s : Site) : (s.flaws.map Prod.fst).Nodup := by
  rw [flaws, List.map_append, List.nodup_append]
  refine ⟨?_, ?_, ?_⟩
  · split
    · exact List.nodup_singleton _
    · exact List.nodup_nil
  · cases hr : rule? s.name with
    | none => exact List.nodup_singleton _
    | some r => exact nodup_ruleFlaws (rule?_eq_some_iff.mp hr).1
  -- No rule finds the flaw of a root.
  · intro g hg h hh
    obtain rfl : g = .root := by
      split at hg
      · exact List.mem_singleton.mp hg
      · cases hg
    rintro rfl
    cases hr : rule? s.name with
    | none =>
        rw [hr] at hh
        cases List.mem_singleton.mp hh
    | some r =>
        rw [hr] at hh
        obtain ⟨⟨g, b⟩, hm, hg⟩ := List.mem_map.mp hh
        obtain rfl : g = .root := hg
        rcases mem_ruleFlaws.mp hm with ⟨_, _, _, _, h⟩ | ⟨_, _, _, _, h, _⟩ | ⟨_, _, _, _, h⟩
        all_goals cases h

/-- What is listed with a flaw is said of it. -/
theorem tells_of_mem (h : (flaw, b) ∈ s.flaws) : s.Tells flaw b := by
  rcases mem_flaws.mp h with ⟨-, rfl, rfl⟩ | ⟨-, rfl, rfl⟩ | ⟨r, hr, hf⟩
  · exact .root
  · exact .unknown
  · obtain ⟨known, named⟩ := rule?_eq_some_iff.mp hr
    rcases mem_ruleFlaws.mp hf with
      ⟨place, ⟨attr, v⟩, stands, hb, rfl⟩ | ⟨a, ruled, required, lacking, rfl, rfl⟩
        | ⟨place, n, stands, hb, rfl⟩
    · rw [ElementRule.attributeBreach?] at hb
      split at hb
      next a ha =>
        obtain ⟨ruled, rfl⟩ := (attribute?_eq_some_iff known).mp ha
        exact .refused known named ruled stands (AttributeRule.refuses_of_breach? hb)
      next ha =>
        obtain rfl := Option.some.inj hb
        rw [named]
        exact .notAllowed known named stands (attribute?_eq_none_iff.mp ha)
    · exact .missing a.name
    · exact tells_of_childBreach? named stands hb

end Site

end ReceiptPrinter.Markup
