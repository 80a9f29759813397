import ReceiptPrinter.Markup.Reading

/-! # Normal form — what reading makes of the parts of a document

    Between the elements of a document stand gaps: text, cut up by comments,
    instructions and the borders of character data.  `Renders parts children` says
    what the children of an element have to be.  The elements among its parts are
    the same in number and order, each made of its own parts again, and a gap
    between two of them is one text: its pieces that are not all blank, joined.

    That is all that reading does (`renders_ofXmlNodes`), and from it alone follows
    that no text is all blank and no two texts are next to each other, at any depth
    (`Renders.normal`).  Where the parts come from does not matter, so the theorem is
    about any reader of documents (`normal_of_parseWith`). -/

namespace ReceiptPrinter

namespace Text

theorem allBlank_append (a b : String) : allBlank (a ++ b) = (allBlank a && allBlank b) := by
  rw [allBlank, allBlank, allBlank, String.toList_append, List.all_append]

end Text

namespace Xml.Node

/-- Whether a part of a document is an element. -/
def isElement : Xml.Node → Bool
  | .element .. => true
  | _ => false

/-- The text of a part that is a piece of text. -/
def text? : Xml.Node → Option String
  | .text content => some content
  | _ => none

end Xml.Node

namespace Markup

/-! ## Gaps -/

/-- The pieces of text in a gap that are not all blank, in their order. -/
def keptPieces (gap : List Xml.Node) : List String :=
  (gap.filterMap Xml.Node.text?).filter fun piece => !Text.allBlank piece

/-- What a gap makes: one text of its pieces, or nothing if there are none. -/
def gapText (gap : List Xml.Node) : List Node :=
  if keptPieces gap = [] then [] else [.text (String.join (keptPieces gap))]

/-- The children that the parts of an element make.  The gaps between its elements
    become texts, and the elements themselves are made of their own parts. -/
inductive Renders : List Xml.Node → List Node → Prop where
  | last {gap : List Xml.Node} (plain : ∀ x ∈ gap, x.isElement = false) :
      Renders gap (gapText gap)
  | element {gap parts rest : List Xml.Node} {name : String} {attributes : List Xml.Attribute}
      {children after : List Node} (plain : ∀ x ∈ gap, x.isElement = false)
      (inside : Renders parts children) (others : Renders rest after) :
      Renders (gap ++ .element name attributes parts :: rest)
        (gapText gap ++ .element name (plainAttributes attributes) children :: after)

/-- Children in normal form, at every depth: no text is all blank, and none is next
    to another one. -/
inductive Normal : List Node → Prop where
  | nil : Normal []
  | text {content : String} {rest : List Node} (kept : Text.allBlank content = false)
      (apart : ∀ other after, rest ≠ .text other :: after) (others : Normal rest) :
      Normal (.text content :: rest)
  | element {name : String} {attributes : Attributes} {children rest : List Node}
      (inside : Normal children) (others : Normal rest) :
      Normal (.element name attributes children :: rest)

theorem keptPieces_cons (x : Xml.Node) (gap : List Xml.Node) :
    keptPieces (x :: gap)
      = (x.text?.toList.filter fun piece => !Text.allBlank piece) ++ keptPieces gap := by
  rw [keptPieces, keptPieces, List.filterMap_cons]
  cases x.text? with
  | none => rfl
  | some piece => exact List.filter_append [piece] _

/-- Only if there are no pieces is there no text. -/
theorem join_keptPieces_eq_empty_iff (gap : List Xml.Node) :
    String.join (keptPieces gap) = "" ↔ keptPieces gap = [] := by
  constructor
  · intro h
    cases hkept : keptPieces gap with
    | nil => rfl
    | cons piece others =>
        have hmem : piece ∈ keptPieces gap := by
          rw [hkept]
          exact List.mem_cons_self
        have hpiece := (List.mem_filter.mp hmem).2
        rw [hkept, String.join_cons, String.append_eq_empty_iff] at h
        rw [h.1, Text.allBlank_empty] at hpiece
        cases hpiece
  · intro h
    rw [h]
    rfl

/-! ## Reading -/

/-- Puts text in front of nodes, if there is any. -/
def glue (content : String) (nodes : List Node) : List Node :=
  if content = "" then nodes else prependText content nodes

@[simp] theorem glue_empty (nodes : List Node) : glue "" nodes = nodes :=
  if_pos rfl

theorem prependText_prependText (a b : String) (nodes : List Node) :
    prependText a (prependText b nodes) = prependText (a ++ b) nodes := by
  cases nodes with
  | nil => rfl
  | cons n rest =>
      cases n with
      | text next => simp [prependText, String.append_assoc]
      | element => rfl

theorem prependText_glue {a : String} (ha : a ≠ "") (b : String) (nodes : List Node) :
    prependText a (glue b nodes) = glue (a ++ b) nodes := by
  have hne : a ++ b ≠ "" := by
    rw [ne_eq, String.append_eq_empty_iff]
    exact fun h => ha h.1
  rw [glue, glue, if_neg hne]
  split
  next h => rw [h, String.append_empty]
  next => exact prependText_prependText a b nodes

/-- A gap puts its pieces in front of what comes behind it. -/
theorem ofXmlNodes_append {gap : List Xml.Node} (plain : ∀ x ∈ gap, x.isElement = false)
    (rest : List Xml.Node) :
    ofXmlNodes (gap ++ rest) = glue (String.join (keptPieces gap)) (ofXmlNodes rest) := by
  induction gap with
  | nil => exact (glue_empty _).symm
  | cons x gap ih =>
      rw [List.forall_mem_cons] at plain
      rw [List.cons_append, ofXmlNodes, ih plain.2]
      cases x with
      | element => cases plain.1
      | comment => rfl
      | instruction => rfl
      | text content =>
          rw [addNode, keptPieces_cons]
          by_cases hblank : Text.allBlank content
          · simp [Xml.Node.text?, hblank]
          · have hne : content ≠ "" := by
              rintro rfl
              exact hblank Text.allBlank_empty
            simp [Xml.Node.text?, hblank, prependText_glue hne, String.join_cons]

/-- In front of what does not begin with a text they are a text of their own. -/
theorem ofXmlNodes_gap {gap : List Xml.Node} (plain : ∀ x ∈ gap, x.isElement = false)
    (rest : List Xml.Node) (apart : ∀ content after, ofXmlNodes rest ≠ .text content :: after) :
    ofXmlNodes (gap ++ rest) = gapText gap ++ ofXmlNodes rest := by
  rw [ofXmlNodes_append plain, glue, gapText]
  simp only [join_keptPieces_eq_empty_iff]
  split
  · rfl
  · cases hrest : ofXmlNodes rest with
    | nil => rfl
    | cons next after =>
        cases next with
        | text content => exact absurd hrest (apart content after)
        | element => rfl

/-- What reading makes of a gap and the parts behind it is their rendering. -/
theorem renders_append : ∀ (parts gap : List Xml.Node), (∀ x ∈ gap, x.isElement = false) →
    Renders (gap ++ parts) (ofXmlNodes (gap ++ parts))
  | [], gap, plain => by
      have hgap := ofXmlNodes_gap plain [] (by simp [ofXmlNodes])
      rw [hgap, ofXmlNodes, List.append_nil, List.append_nil]
      exact .last plain
  | x :: rest, gap, plain => by
      have others := renders_append rest [] (List.forall_mem_nil _)
      by_cases hx : x.isElement = true
      · match x with
        | .element name attributes parts =>
          have inside := renders_append parts [] (List.forall_mem_nil _)
          rw [ofXmlNodes_gap plain _ (by simp [ofXmlNodes, addNode]), ofXmlNodes, addNode]
          exact .element plain inside others
      · -- A part that is no element belongs to the gap.
        have longer : ∀ y ∈ gap ++ [x], y.isElement = false := by
          intro y hy
          rcases List.mem_append.mp hy with hy | hy
          · exact plain y hy
          · rw [List.mem_singleton.mp hy]
            exact Bool.eq_false_iff.mpr hx
        have h := renders_append rest (gap ++ [x]) longer
        rwa [List.append_assoc] at h

/-- **WHAT READING MAKES OF PARTS IS THEIR RENDERING.** -/
theorem renders_ofXmlNodes (parts : List Xml.Node) : Renders parts (ofXmlNodes parts) :=
  renders_append parts [] (List.forall_mem_nil _)

/-! ## Normal form -/

/-- Pieces that are joined are all blank only if there are none. -/
theorem allBlank_join_keptPieces {gap : List Xml.Node} (h : keptPieces gap ≠ []) :
    Text.allBlank (String.join (keptPieces gap)) = false := by
  cases hkept : keptPieces gap with
  | nil => exact absurd hkept h
  | cons piece others =>
      have hmem : piece ∈ keptPieces gap := by
        rw [hkept]
        exact List.mem_cons_self
      have hpiece := (List.mem_filter.mp hmem).2
      rw [Bool.not_eq_true'] at hpiece
      rw [String.join_cons, Text.allBlank_append, hpiece, Bool.false_and]

/-- The text of a gap is in normal form in front of anything but a text. -/
theorem normal_gapText (gap : List Xml.Node) {rest : List Node} (h : Normal rest)
    (apart : ∀ content after, rest ≠ .text content :: after) : Normal (gapText gap ++ rest) := by
  rw [gapText]
  split
  · exact h
  next hne => exact .text (allBlank_join_keptPieces hne) apart h

theorem Renders.normal {parts : List Xml.Node} {children : List Node} (h : Renders parts children) :
    Normal children := by
  induction h with
  | @last gap plain =>
      have h := normal_gapText gap .nil (by simp)
      rwa [List.append_nil] at h
  | element plain inside others ihInside ihOthers =>
      exact normal_gapText _ (.element ihInside ihOthers) (by simp)

/-- **WHAT IS READ IS IN NORMAL FORM**, whichever way documents are read: nothing is
    asked of the reader. -/
theorem normal_of_parseWith {read? : String → Option Xml.Node} {s : String} {e : Element}
    (h : parseWith read? s = .ok e) :
    ∃ name attributes parts, read? s = some (.element name attributes parts)
      ∧ e.name = name ∧ e.attributes = plainAttributes attributes
      ∧ Renders parts e.children ∧ Normal e.children := by
  rw [parseWith] at h
  cases hroot : read? s with
  | none =>
      rw [hroot] at h
      cases h
  | some root =>
      rw [hroot] at h
      cases root with
      | element name attributes parts =>
          cases h
          have renders := renders_ofXmlNodes parts
          exact ⟨name, attributes, parts, rfl, rfl, rfl, renders, renders.normal⟩
      | text => cases h
      | comment => cases h
      | instruction => cases h

/-- **MARKUP THAT IS READ IS IN NORMAL FORM.**  The tree is that of the root of the
    document, at every depth: its elements in their order, none lost and none twice,
    and between two of them at most one text, which joins just the pieces there that
    are not all blank. -/
theorem normal_of_parse {s : String} {e : Element} (h : parse s = .ok e) :
    ∃ name attributes parts, Xml.parse? s = some (.element name attributes parts)
      ∧ e.name = name ∧ e.attributes = plainAttributes attributes
      ∧ Renders parts e.children ∧ Normal e.children :=
  normal_of_parseWith h

/-- A document whose text is cut up by a comment and the border of character data. -/
theorem normal_of_cutText :
    parse "<receipt>\n <line>a<!--x--> <![CDATA[b]]><cut/> </line> c</receipt>"
        = .ok ⟨"receipt", [],
          [.element "line" [] [.text "a b", .element "cut" [] []], .text " c"]⟩
      ∧ Normal [.element "line" [] [.text "a b", .element "cut" [] []], .text " c"] := by
  have tokens :
      Xml.tokens? "<receipt>\n <line>a<!--x--> <![CDATA[b]]><cut/> </line> c</receipt>"
        = some [.opening ⟨"", "receipt"⟩ [] false, .text ['\n', ' '],
          .opening ⟨"", "line"⟩ [] false, .text ['a'], .comment, .text [' '], .data ['b'],
          .opening ⟨"", "cut"⟩ [] true, .text [' '], .closing ⟨"", "line"⟩, .text [' ', 'c'],
          .closing ⟨"", "receipt"⟩] := by
    decide +kernel
  have h : parse "<receipt>\n <line>a<!--x--> <![CDATA[b]]><cut/> </line> c</receipt>"
      = .ok ⟨"receipt", [],
        [.element "line" [] [.text "a b", .element "cut" [] []], .text " c"]⟩ := by
    rw [parse, parseWith, Xml.parse?, tokens]
    with_unfolding_all rfl
  obtain ⟨-, -, -, -, -, -, -, normal⟩ := normal_of_parse h
  exact ⟨h, normal⟩

end Markup

end ReceiptPrinter
