import Mathlib.Data.List.Lex
import Mathlib.Logic.Relation
import ReceiptPrinter.Proofs.Markup.Flaws

/-! # Violations — nothing that is wrong hides behind something else

    A list of violations is useful if it can be relied on to be complete.  Here
    it is taken apart into what each element contributes.  Validation VISITS
    the root, and the elements directly in a visited one whose content may be
    mixed.

    The violations are those of the visited sites, site by site in the order of
    the document, and each site has one for each of its flaws
    (`violations_by_site`).  The flaws of a site do not depend on anything
    outside it, which is why none of them can be masked. -/

namespace ReceiptPrinter.Markup

/-! ## Visited elements -/

/-- The number of elements among nodes. -/
def elementCount (ns : List Node) : Nat :=
  (ns.filterMap Node.name?).length

/-- The site of an element that has a number among the children of another. -/
def childSite (address : List Nat) (path : String) (place : Nat) (name : String)
    (attributes : Attributes) (children : List Node) : Site :=
  ⟨address ++ [place], childPath path name place, name, attributes, children⟩

/-- The site of a root. -/
def Element.site (root : Element) : Site :=
  ⟨[], s!"/{root.name}", root.name, root.attributes, root.children⟩

/-- The elements that stand directly in one of the vocabulary whose content may
    be mixed. -/
inductive Site.Inner (s : Site) : Site → Prop
  | mk {r : ElementRule} {before after : List Node} {name : String} {attributes : Attributes}
      {children : List Node} (known : r ∈ elements) (named : r.name = s.name)
      (mixed : r.content = .mixed)
      (stands : s.children = before ++ .element name attributes children :: after) :
      s.Inner (childSite s.address s.path (1 + elementCount before) name attributes children)

/-- The elements all around which are elements of mixed content: the root, and
    what stands directly in such an element. -/
def Element.Visited (root : Element) : Site → Prop :=
  Relation.ReflTransGen Site.Inner root.site

/-! ## The walk over them -/

mutual

/-- The visited sites of a node, in the order of the document. -/
def Node.sites (address : List Nat) (path : String) : Node → List Site
  | .text _ => []
  | .element name attributes children =>
    ⟨address, path, name, attributes, children⟩ ::
      match rule? name with
      | none => []
      | some r => if r.content = .mixed then childSites address path 1 children else []

/-- The visited sites of children, the first of which has the given place. -/
def childSites (address : List Nat) (path : String) (place : Nat) : List Node → List Site
  | [] => []
  | child :: rest =>
    match child.name? with
    | none => childSites address path place rest
    | some name =>
      child.sites (address ++ [place]) (childPath path name place) ++
        childSites address path (place + 1) rest

end

/-- The visited sites of a document. -/
def Element.sites (root : Element) : List Site :=
  root.toNode.sites [] s!"/{root.name}"

/-! ## What the walk collects -/

section

variable {s : Site} {address : List Nat} {path name : String} {attributes : Attributes}
  {children : List Node}

theorem sites_element {r : ElementRule} (hr : rule? name = some r) :
    (Node.element name attributes children).sites address path
      = ⟨address, path, name, attributes, children⟩
        :: if r.content = .mixed then childSites address path 1 children else [] := by
  rw [Node.sites, hr]

theorem sites_unknown (hr : rule? name = none) :
    (Node.element name attributes children).sites address path
      = [⟨address, path, name, attributes, children⟩] := by
  rw [Node.sites, hr]

theorem childSites_element {place : Nat} {rest : List Node} :
    childSites address path place (.element name attributes children :: rest)
      = (Node.element name attributes children).sites (address ++ [place])
          (childPath path name place) ++ childSites address path (place + 1) rest :=
  rfl

/-- The violations of a site by itself. -/
theorem violations_site (s : Site) :
    s.violations = (if s.address = [] ∧ s.name ≠ "receipt" then [⟨s.path, .rootName⟩] else []) ++
      match rule? s.name with
      | none => [⟨s.path, .unknownElement s.name⟩]
      | some r => (r.breaches s.attributes s.children).map (Violation.mk s.path) := by
  rw [Site.violations, Site.flaws, List.map_append]
  refine congrArg₂ _ ?_ ?_
  · split <;> rfl
  · cases rule? s.name with
    | none => rfl
    | some r =>
        dsimp only
        rw [← map_snd_flaws, List.map_map]
        rfl

/-- The sites of an element have its violations, and if it is a root perhaps one
    more. -/
theorem flatMap_violations_element
    (h : childViolations path 1 children
      = (childSites address path 1 children).flatMap Site.violations) :
    ((Node.element name attributes children).sites address path).flatMap Site.violations
      = (if address = [] ∧ name ≠ "receipt" then [⟨path, .rootName⟩] else []) ++
          (Node.element name attributes children).violations path := by
  cases hr : rule? name with
  | none =>
      rw [sites_unknown hr, List.flatMap_singleton, violations_site, Node.violations, hr]
  | some r =>
      rw [sites_element hr, List.flatMap_cons, violations_site, Node.violations, hr,
        List.append_assoc, apply_ite (List.flatMap Site.violations), ← h]
      rfl

end

mutual

/-- The violations of a node inside a document are those of its visited sites. -/
theorem violations_node_eq_flatMap (address : List Nat) (path : String) (inner : address ≠ []) :
    ∀ n : Node, n.violations path = (n.sites address path).flatMap Site.violations
  | .text content => rfl
  | .element name attributes children => by
      have hroot : ¬ (address = [] ∧ name ≠ "receipt") := fun h => inner h.1
      rw [flatMap_violations_element (violations_children_eq_flatMap address path 1 children),
        if_neg hroot, List.nil_append]

theorem violations_children_eq_flatMap (address : List Nat) (path : String) (place : Nat) :
    ∀ ns : List Node,
      childViolations path place ns = (childSites address path place ns).flatMap Site.violations
  | [] => rfl
  | .text content :: rest => violations_children_eq_flatMap address path place rest
  | .element name attributes children :: rest => by
      have hne : address ++ [place] ≠ [] :=
        List.append_ne_nil_of_right_ne_nil _ (List.cons_ne_nil _ _)
      rw [childSites_element, List.flatMap_append,
        ← violations_node_eq_flatMap (address ++ [place]) _ hne (.element name attributes children),
        ← violations_children_eq_flatMap address path (place + 1) rest]
      rfl

end

/-- The violations of a document are those of its visited sites. -/
theorem Element.violations_eq_flatMap (root : Element) :
    root.violations = root.sites.flatMap Site.violations := by
  have h := violations_children_eq_flatMap [] s!"/{root.name}" 1 root.children
  rw [Element.violations, Element.sites, Element.toNode, flatMap_violations_element h]
  refine congrArg (· ++ _) ?_
  by_cases hn : root.name = "receipt"
  · rw [if_pos hn, if_neg fun h => h.2 hn]
  · rw [if_neg hn, if_pos ⟨rfl, hn⟩]

/-! ## Which elements the walk visits -/

section

variable {s : Site} {address : List Nat} {path name : String} {attributes : Attributes}
  {children : List Node}

/-- What is in an element of mixed content is what is in its children. -/
theorem inner_iff {r : ElementRule} (hr : rule? name = some r) :
    Site.Inner ⟨address, path, name, attributes, children⟩ s
      ↔ r.content = .mixed ∧ ∃ before childName childAttributes grandchildren after,
          children = before ++ .element childName childAttributes grandchildren :: after
          ∧ childSite address path (1 + elementCount before) childName childAttributes
              grandchildren = s := by
  obtain ⟨known, named⟩ := rule?_eq_some_iff.mp hr
  constructor
  · rintro ⟨known', named', mixed, stands⟩
    obtain rfl := Option.some.inj (hr.symm.trans (rule?_eq_some_iff.mpr ⟨known', named'⟩))
    exact ⟨mixed, _, _, _, _, _, stands, rfl⟩
  · rintro ⟨mixed, before, childName, childAttributes, grandchildren, after, stands, rfl⟩
    exact .mk known named mixed stands

theorem not_inner_of_unknown (hr : rule? name = none) :
    ¬ Site.Inner ⟨address, path, name, attributes, children⟩ s := by
  rintro ⟨known, named, -, -⟩
  exact rule?_eq_none_iff.mp hr _ known named

end

mutual

/-- The walk from an element visits what can be reached from its site. -/
theorem mem_sites_iff (s : Site) (address : List Nat) (path : String) :
    ∀ n : Node, s ∈ n.sites address path
      ↔ ∃ name attributes children, n = .element name attributes children
        ∧ Relation.ReflTransGen Site.Inner ⟨address, path, name, attributes, children⟩ s
  | .text content => ⟨nofun, nofun⟩
  | .element name attributes children => by
      have hself : (∃ name' attributes' children',
            Node.element name attributes children = .element name' attributes' children'
            ∧ Relation.ReflTransGen Site.Inner ⟨address, path, name', attributes', children'⟩ s)
          ↔ Relation.ReflTransGen Site.Inner ⟨address, path, name, attributes, children⟩ s := by
        constructor
        · rintro ⟨_, _, _, he, h⟩
          obtain ⟨rfl, rfl, rfl⟩ := Node.element.inj he
          exact h
        · exact fun h => ⟨_, _, _, rfl, h⟩
      rw [hself, Relation.ReflTransGen.cases_head_iff]
      cases hr : rule? name with
      | none =>
          rw [sites_unknown hr, List.mem_singleton, eq_comm]
          refine (or_iff_left ?_).symm
          rintro ⟨t, ht, -⟩
          exact not_inner_of_unknown hr ht
      | some r =>
          rw [sites_element hr, List.mem_cons, eq_comm]
          -- Behind its own site come those that are reached through a child.
          refine or_congr_right ?_
          simp only [inner_iff hr]
          split
          next mixed =>
            rw [mem_childSites_iff s address path 1 children]
            constructor
            · rintro ⟨_, _, _, _, _, stands, h⟩
              exact ⟨_, ⟨mixed, _, _, _, _, _, stands, rfl⟩, h⟩
            · rintro ⟨_, ⟨-, _, _, _, _, _, stands, rfl⟩, h⟩
              exact ⟨_, _, _, _, _, stands, h⟩
          next mixed =>
            refine iff_of_false (List.not_mem_nil) ?_
            rintro ⟨t, ⟨h, -⟩, -⟩
            exact mixed h

theorem mem_childSites_iff (s : Site) (address : List Nat) (path : String) (place : Nat) :
    ∀ ns : List Node, s ∈ childSites address path place ns
      ↔ ∃ before name attributes children after,
        ns = before ++ .element name attributes children :: after
        ∧ Relation.ReflTransGen Site.Inner
            (childSite address path (place + elementCount before) name attributes children) s
  | [] => by
      refine iff_of_false List.not_mem_nil ?_
      rintro ⟨before, _, _, _, _, h, -⟩
      exact List.append_ne_nil_of_right_ne_nil _ (List.cons_ne_nil _ _) h.symm
  | .text content :: rest => by
      rw [show childSites address path place (.text content :: rest)
        = childSites address path place rest from rfl, mem_childSites_iff s address path place rest]
      constructor
      · rintro ⟨before, name, attributes, children, after, rfl, h⟩
        exact ⟨.text content :: before, name, attributes, children, after, rfl, h⟩
      · rintro ⟨before, name, attributes, children, after, stands, h⟩
        cases before with
        | nil => cases stands
        | cons first before =>
            obtain ⟨rfl, rfl⟩ := List.cons.inj stands
            exact ⟨before, name, attributes, children, after, rfl, h⟩
  | .element name attributes children :: rest => by
      have hcount : ∀ before, place + elementCount (.element name attributes children :: before)
          = place + 1 + elementCount before := by
        intro before
        show place + (elementCount before + 1) = _
        omega
      rw [childSites_element, List.mem_append,
        mem_sites_iff s _ _ (.element name attributes children),
        mem_childSites_iff s address path (place + 1) rest]
      constructor
      · rintro (⟨_, _, _, he, h⟩ | ⟨before, _, _, _, after, rfl, h⟩)
        · obtain ⟨rfl, rfl, rfl⟩ := Node.element.inj he
          exact ⟨[], name, attributes, children, rest, rfl, h⟩
        · exact ⟨_ :: before, _, _, _, after, rfl, by rw [hcount]; exact h⟩
      · rintro ⟨before, _, _, _, after, stands, h⟩
        cases before with
        | nil =>
            obtain ⟨he, rfl⟩ := List.cons.inj stands
            obtain ⟨rfl, rfl, rfl⟩ := Node.element.inj he
            exact .inl ⟨_, _, _, rfl, h⟩
        | cons first before =>
            obtain ⟨rfl, rfl⟩ := List.cons.inj stands
            rw [hcount] at h
            exact .inr ⟨before, _, _, _, after, rfl, h⟩

end

/-- The walk visits what `Visited` says. -/
theorem Element.mem_sites_iff (root : Element) (s : Site) : s ∈ root.sites ↔ root.Visited s := by
  rw [Element.sites, Markup.mem_sites_iff s [] _ root.toNode]
  constructor
  · rintro ⟨_, _, _, he, h⟩
    obtain ⟨rfl, rfl, rfl⟩ := Node.element.inj he
    exact h
  · exact fun h => ⟨_, _, _, rfl, h⟩

/-! ## The order of the walk -/

/-- The sites of an element are its own and those of its children. -/
theorem sites_element_cases (address : List Nat) (path name : String) (attributes : Attributes)
    (children : List Node) :
    ∃ inside, (inside = childSites address path 1 children ∨ inside = [])
      ∧ (Node.element name attributes children).sites address path
        = ⟨address, path, name, attributes, children⟩ :: inside := by
  cases hr : rule? name with
  | none => exact ⟨[], .inr rfl, sites_unknown hr⟩
  | some r => exact ⟨_, ite_eq_or_eq _ _ _, sites_element hr⟩

mutual

/-- Addresses in an element begin with its own, and go up along the walk. -/
theorem pairwise_sites (address : List Nat) (path : String) :
    ∀ n : Node, (n.sites address path).Pairwise (·.address < ·.address)
      ∧ ∀ s ∈ n.sites address path, ∃ below, s.address = address ++ below
  | .text content => ⟨.nil, nofun⟩
  | .element name attributes children => by
      obtain ⟨hpairs, hbelow⟩ := pairwise_childSites address path 1 children
      obtain ⟨inside, hinside, hsites⟩ :=
        sites_element_cases address path name attributes children
      have hpairs : inside.Pairwise (·.address < ·.address) := by
        rcases hinside with rfl | rfl
        · exact hpairs
        · exact .nil
      have hbelow : ∀ s ∈ inside, ∃ number below, s.address = address ++ number :: below := by
        intro s hs
        rcases hinside with rfl | rfl
        · obtain ⟨number, below, -, h⟩ := hbelow s hs
          exact ⟨number, below, h⟩
        · cases hs
      rw [hsites]
      -- An address is in front of all that begin with it.
      refine ⟨List.pairwise_cons.mpr ⟨fun s hs => ?_, hpairs⟩, fun s hs => ?_⟩
      · obtain ⟨number, below, h⟩ := hbelow s hs
        have hlt : address ++ [] < address ++ number :: below :=
          List.append_left_lt (List.nil_lt_cons number below)
        rw [List.append_nil, ← h] at hlt
        exact hlt
      · rcases List.mem_cons.mp hs with rfl | hs
        · exact ⟨[], (List.append_nil _).symm⟩
        · obtain ⟨number, below, h⟩ := hbelow s hs
          exact ⟨_, h⟩

theorem pairwise_childSites (address : List Nat) (path : String) (place : Nat) :
    ∀ ns : List Node, (childSites address path place ns).Pairwise (·.address < ·.address)
      ∧ ∀ s ∈ childSites address path place ns,
        ∃ number below, place ≤ number ∧ s.address = address ++ number :: below
  | [] => ⟨.nil, nofun⟩
  | .text content :: rest => pairwise_childSites address path place rest
  | .element name attributes children :: rest => by
      obtain ⟨hfirst, hown⟩ := pairwise_sites (address ++ [place]) (childPath path name place)
        (.element name attributes children)
      obtain ⟨hrest, hlater⟩ := pairwise_childSites address path (place + 1) rest
      have hown : ∀ s ∈ (Node.element name attributes children).sites (address ++ [place])
          (childPath path name place), ∃ below, s.address = address ++ place :: below := by
        intro s hs
        obtain ⟨below, h⟩ := hown s hs
        exact ⟨below, by rw [h, List.append_assoc]; rfl⟩
      rw [childSites_element]
      refine ⟨List.pairwise_append.mpr ⟨hfirst, hrest, fun s hs t ht => ?_⟩, fun s hs => ?_⟩
      · obtain ⟨x, hx⟩ := hown s hs
        obtain ⟨number, y, hle, hy⟩ := hlater t ht
        rw [hx, hy]
        exact List.append_left_lt (List.cons_lt_cons_iff.mpr (.inl hle))
      · rcases List.mem_append.mp hs with hs | hs
        · obtain ⟨below, h⟩ := hown s hs
          exact ⟨place, below, Nat.le_refl _, h⟩
        · obtain ⟨number, below, hle, h⟩ := hlater s hs
          exact ⟨number, below, Nat.le_of_succ_le hle, h⟩

end

/-! ## Documents -/

/-- **VALIDATION IS COMPLETE AND NOTHING IS MASKED**: a document has no violations
    just if it is a receipt by the grammar.  Otherwise its violations are those
    of the visited sites, each site once and in the order of the document; and
    each flaw that a site has by the grammar contributes one violation of its
    own, with the path of the site. -/
theorem violations_by_site (root : Element) :
    (root.violations = [] ↔ root.Conforms)
      ∧ root.violations
          = root.sites.flatMap (fun s => s.flaws.map fun flaw => ⟨s.path, flaw.2⟩)
      ∧ (∀ s, s ∈ root.sites ↔ root.Visited s)
      ∧ root.sites.Pairwise (·.address < ·.address)
      ∧ ∀ s : Site, (s.flaws.map Prod.fst).Nodup
          ∧ (∀ flaw, flaw ∈ s.flaws.map Prod.fst ↔ s.Breaks flaw)
          ∧ ∀ flaw b, (flaw, b) ∈ s.flaws → s.Tells flaw b :=
  ⟨violations_eq_nil_iff root, root.violations_eq_flatMap, root.mem_sites_iff,
    (pairwise_sites [] _ root.toNode).1,
    fun s => ⟨s.nodup_flaws, fun _ => Site.breaks_iff, fun _ _ => Site.tells_of_mem⟩⟩

end ReceiptPrinter.Markup
