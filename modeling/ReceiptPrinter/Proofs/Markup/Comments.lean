import ReceiptPrinter.Proofs.Markup.NormalForm
import ReceiptPrinter.Proofs.Xml.Positions

/-! # Comments — what becomes of the text around them

    A comment is no part of markup, but it splits the text that it stands in.  Texts
    that are all blank are dropped piece by piece, before pieces are joined.  So
    blanks that a comment separates from the text next to them are lost, while
    without the comment they belong to this text and stay.

    That is the only trace of a comment: `parseWith_comment_iff` says exactly when the
    tree is the same, for any reader of documents to whom a comment does no more than
    split a text, and `parse_comment_iff` for the one that there is.  The way to it is
    that a tree shows what stands at each place of it (`ofXmlNodes_fill_iff`), because
    no text that is kept is empty. -/

namespace ReceiptPrinter.Markup

open Xml (Layer)

/-! ## What a tree shows -/

/-- Nodes begin with a text, or text in front of them is one of their own. -/
theorem text_or_prependText (nodes : List Node) :
    (∃ next rest, nodes = .text next :: rest)
      ∨ ∀ content, prependText content nodes = .text content :: nodes := by
  cases nodes with
  | nil => exact .inr fun _ => rfl
  | cons n rest =>
      cases n with
      | text next => exact .inl ⟨next, rest, rfl⟩
      | element => exact .inr fun _ => rfl

/-- Text that is put in front of nodes can be told from what comes out. -/
theorem glue_inj {a b : String} {nodes : List Node} : glue a nodes = glue b nodes ↔ a = b := by
  constructor
  · intro h
    rcases text_or_prependText nodes with ⟨next, rest, rfl⟩ | plain
    · have joined : ∀ s, glue s (.text next :: rest) = .text (s ++ next) :: rest := by
        intro s
        rw [glue]
        split
        next hs => rw [hs, String.empty_append]
        next => rfl
      rw [joined, joined] at h
      exact (String.append_left_inj next).mp (Node.text.inj (List.cons.inj h).1)
    · rw [glue, glue, plain, plain] at h
      split at h
      next ha =>
        split at h
        next hb => rw [ha, hb]
        next => exact absurd h.symm (List.cons_ne_self _ _)
      next =>
        split at h
        next => exact absurd h (List.cons_ne_self _ _)
        next => exact Node.text.inj (List.cons.inj h).1
  · rintro rfl
    rfl

/-- What comes behind a part can be told from what both make together. -/
theorem addNode_inj {x : Xml.Node} {m n : List Node} (hm : Normal m) (hn : Normal n)
    (h : addNode m x = addNode n x) : m = n := by
  have kept : ∀ {next : String} {rest : List Node}, Normal (.text next :: rest) → next ≠ "" := by
    intro next rest hnormal
    cases hnormal with
    | text hblank _ _ =>
        rintro rfl
        rw [Text.allBlank_empty] at hblank
        cases hblank
  cases x with
  | comment => exact h
  | instruction => exact h
  | element => exact (List.cons.inj h).2
  | text content =>
      rw [addNode, addNode] at h
      split at h
      · exact h
      · -- A text that the new one is joined to is not empty.
        rcases text_or_prependText m with ⟨a, r, rfl⟩ | hmPlain
        · rcases text_or_prependText n with ⟨b, r', rfl⟩ | hnPlain
          · obtain ⟨htext, rfl⟩ := List.cons.inj h
            rw [(String.append_right_inj content).mp (Node.text.inj htext)]
          · rw [hnPlain] at h
            have hself := Node.text.inj (List.cons.inj h).1
            exact absurd (String.append_eq_left_iff.mp hself) (kept hm)
        · rw [hmPlain] at h
          rcases text_or_prependText n with ⟨b, r', rfl⟩ | hnPlain
          · have hself := Node.text.inj (List.cons.inj h.symm).1
            exact absurd (String.append_eq_left_iff.mp hself) (kept hn)
          · rw [hnPlain] at h
            exact (List.cons.inj h).2

theorem ofXmlNodes_append_iff (front : List Xml.Node) {xs ys : List Xml.Node} :
    ofXmlNodes (front ++ xs) = ofXmlNodes (front ++ ys) ↔ ofXmlNodes xs = ofXmlNodes ys := by
  induction front with
  | nil => rfl
  | cons x front ih =>
      rw [List.cons_append, List.cons_append, ofXmlNodes, ofXmlNodes, ← ih]
      constructor
      · intro h
        exact addNode_inj (renders_ofXmlNodes _).normal (renders_ofXmlNodes _).normal h
      · intro h
        rw [h]

/-- **A TREE SHOWS WHAT STANDS AT A PLACE OF IT**, up to the pieces that are dropped. -/
theorem ofXmlNodes_fill_iff (layers : List Layer) (front back : List Xml.Node)
    {xs ys : List Xml.Node} (hxs : ∀ x ∈ xs, x.isElement = false)
    (hys : ∀ x ∈ ys, x.isElement = false) :
    ofXmlNodes (front ++ Layer.fill layers xs ++ back)
        = ofXmlNodes (front ++ Layer.fill layers ys ++ back)
      ↔ String.join (keptPieces xs) = String.join (keptPieces ys) := by
  induction layers generalizing front back with
  | nil =>
      rw [List.append_assoc, List.append_assoc, ofXmlNodes_append_iff, Layer.fill, Layer.fill,
        ofXmlNodes_append hxs, ofXmlNodes_append hys, glue_inj]
  | cons l layers ih =>
      have inner := ih l.before l.behind
      rw [List.append_assoc, List.append_assoc, ofXmlNodes_append_iff, Layer.fill, Layer.fill,
        List.singleton_append, List.singleton_append, ofXmlNodes, ofXmlNodes, Layer.wrap,
        Layer.wrap, addNode, addNode, ← inner]
      simp

/-! ## Comments -/

/-- A piece of text that is kept unless it is all blank. -/
def keptText (text : String) : String :=
  if Text.allBlank text then "" else text

theorem join_keptPieces_append (xs ys : List Xml.Node) : String.join (keptPieces (xs ++ ys))
    = String.join (keptPieces xs) ++ String.join (keptPieces ys) := by
  rw [keptPieces, List.filterMap_append, List.filter_append, String.join_append]
  rfl

theorem join_keptPieces_of_isPiece {piece : List Xml.Node} {text : String}
    (h : Xml.IsPiece piece text) : String.join (keptPieces piece) = keptText text := by
  rcases h with rfl | ⟨rfl, rfl⟩
  · show String.join ([text].filter fun piece => !Text.allBlank piece) = keptText text
    rw [keptText, List.filter_cons]
    cases Text.allBlank text with
    | true => rfl
    | false => exact (String.join_cons ..).trans String.append_empty
  · rw [keptText, if_pos Text.allBlank_empty]
    rfl

theorem isElement_of_isPiece {piece : List Xml.Node} {text : String} (h : Xml.IsPiece piece text) :
    ∀ x ∈ piece, x.isElement = false := by
  rcases h with rfl | ⟨rfl, rfl⟩
  · exact List.forall_mem_singleton.mpr rfl
  · exact List.forall_mem_nil _

/-- Texts that are kept piece by piece are kept as a whole, unless one of them is all
    blank and the other one would save it. -/
theorem keptText_append_iff (a b : String) : keptText (a ++ b) = keptText a ++ keptText b
    ↔ a = "" ∨ b = "" ∨ Text.allBlank a = Text.allBlank b := by
  have nonempty : ∀ {s : String}, Text.allBlank s = false → s ≠ "" := by
    rintro _ hs rfl
    rw [Text.allBlank_empty] at hs
    cases hs
  rw [keptText, keptText, keptText, Text.allBlank_append]
  cases ha : Text.allBlank a <;> cases hb : Text.allBlank b
  · simp
  · simp [nonempty ha, String.append_eq_left_iff]
  · simp [nonempty hb, String.append_eq_right_iff]
  · simp

section

variable {read? : String → Option Xml.Node} {s : String}

/-- The element that is read is that of the root. -/
theorem parseWith_wrap {l : Layer} {content : List Xml.Node}
    (h : read? s = some (l.wrap content)) :
    parseWith read? s = .ok ⟨l.name, plainAttributes l.attributes,
      ofXmlNodes (l.before ++ content ++ l.behind)⟩ := by
  rw [parseWith, h]
  rfl

theorem exists_root_of_parseWith {e : Element} (h : parseWith read? s = .ok e) :
    ∃ root, read? s = some root := by
  rw [parseWith] at h
  cases hroot : read? s with
  | none =>
      rw [hroot] at h
      cases h
  | some root => exact ⟨root, rfl⟩

/-- To a reader, one document is another one with a comment in a text: two pieces of
    text around the comment are one without it, and all else is the same. -/
def SplitsAtComment (read? : String → Option Xml.Node) (whole commented left right : String) :
    Prop :=
  ∃ (l : Layer) (layers : List Layer) (piece front back : List Xml.Node),
    read? whole = some (l.wrap (Layer.fill layers piece))
      ∧ read? commented = some (l.wrap (Layer.fill layers (front ++ .comment :: back)))
      ∧ Xml.IsPiece piece (left ++ right) ∧ Xml.IsPiece front left ∧ Xml.IsPiece back right

/-- **WHAT A COMMENT CHANGES**, to any reader that splits the text at it: both
    documents are read, and as the same tree unless one of the two texts is blanks
    that the other one saves. -/
theorem parseWith_comment_iff {whole commented left right : String}
    (splits : SplitsAtComment read? whole commented left right) :
    ∃ e e', parseWith read? whole = .ok e ∧ parseWith read? commented = .ok e'
      ∧ (e' = e ↔ left = "" ∨ right = "" ∨ Text.allBlank left = Text.allBlank right) := by
  obtain ⟨l, layers, piece, front, back, hwhole, hcommented, wholePiece, frontPiece, backPiece⟩ :=
    splits
  refine ⟨_, _, parseWith_wrap hwhole, parseWith_wrap hcommented, ?_⟩
  -- Both trees show what is kept of the pieces.
  have hplain : ∀ x ∈ front ++ Xml.Node.comment :: back, x.isElement = false := by
    intro x hx
    rcases List.mem_append.mp hx with hx | hx
    · exact isElement_of_isPiece frontPiece x hx
    · rcases List.mem_cons.mp hx with rfl | hx
      · rfl
      · exact isElement_of_isPiece backPiece x hx
  have hkept : String.join (keptPieces (front ++ Xml.Node.comment :: back))
      = keptText left ++ keptText right := by
    rw [join_keptPieces_append, join_keptPieces_of_isPiece frontPiece,
      ← join_keptPieces_of_isPiece backPiece]
    rfl
  have hsame := ofXmlNodes_fill_iff layers l.before l.behind hplain
    (isElement_of_isPiece wholePiece)
  rw [hkept, join_keptPieces_of_isPiece wholePiece, eq_comm (a := keptText _ ++ _),
    keptText_append_iff] at hsame
  rw [← hsame]
  simp

end

/-- **WHAT A COMMENT CHANGES**: markup with a comment in the content of an element is
    read, and where the comment just splits the text around it, the tree is the same
    unless one of the two texts is blanks that the other one saves. -/
theorem parse_comment_iff {before after body : String} {e : Element}
    (accepted : parse (before ++ after) = .ok e)
    (inside : (Xml.openElement? before).isSome = true) (comment : Xml.IsComment body.toList) :
    (∃ e', parse (before ++ Xml.commentText body ++ after) = .ok e')
      ∧ (Xml.SplitsText before after →
        (parse (before ++ Xml.commentText body ++ after) = .ok e
          ↔ Xml.textBefore before = "" ∨ Xml.textAfter after = ""
            ∨ Text.allBlank (Xml.textBefore before) = Text.allBlank (Xml.textAfter after))) := by
  obtain ⟨root, hroot⟩ := exists_root_of_parseWith accepted
  obtain ⟨l, layers, piece, front, back, text, rfl, hcomment, wholePiece, frontPiece, backPiece,
    split⟩ := Xml.parse?_comment hroot inside comment
  refine ⟨⟨_, parseWith_wrap hcomment⟩, ?_⟩
  intro splits
  rw [split splits] at wholePiece
  obtain ⟨e', e'', hwhole, hcommented, hiff⟩ := parseWith_comment_iff
    ⟨l, layers, piece, front, back, hroot, hcomment, wholePiece, frontPiece, backPiece⟩
  have he : e' = e := Except.ok.inj (hwhole.symm.trans accepted)
  rw [← hiff, ← he, parse, hcommented]
  exact ⟨Except.ok.inj, congrArg _⟩

/-- A comment in the middle of a text, behind character data. -/
theorem parse_comment_inText :
    parse ("<receipt><line><![CDATA[a ]]>b" ++ " c</line></receipt>")
        = .ok ⟨"receipt", [], [.element "line" [] [.text "a b c"]]⟩
      ∧ parse ("<receipt><line><![CDATA[a ]]>b" ++ Xml.commentText " x "
          ++ " c</line></receipt>")
        = .ok ⟨"receipt", [], [.element "line" [] [.text "a b c"]]⟩ := by
  have tokens : Xml.tokens? ("<receipt><line><![CDATA[a ]]>b" ++ " c</line></receipt>")
      = some [.opening ⟨"", "receipt"⟩ [] false, .opening ⟨"", "line"⟩ [] false,
        .data ['a', ' '], .text ['b', ' ', 'c'], .closing ⟨"", "line"⟩,
        .closing ⟨"", "receipt"⟩] := by
    decide +kernel
  have accepted : parse ("<receipt><line><![CDATA[a ]]>b" ++ " c</line></receipt>")
      = .ok ⟨"receipt", [], [.element "line" [] [.text "a b c"]]⟩ := by
    rw [parse, parseWith, Xml.parse?, tokens]
    with_unfolding_all rfl
  have inside : (Xml.openElement? "<receipt><line><![CDATA[a ]]>b").isSome = true := by
    decide +kernel
  have comment : Xml.IsComment " x ".toList := by
    refine ⟨?_, ?_, ?_⟩ <;> decide
  obtain ⟨root, hroot⟩ := exists_root_of_parseWith accepted
  have splits := Xml.splitsText_of_noReturn hroot inside (by decide) (by decide)
  have blanks : Text.allBlank (Xml.textBefore "<receipt><line><![CDATA[a ]]>b")
      = Text.allBlank (Xml.textAfter " c</line></receipt>") := by
    decide +kernel
  exact ⟨accepted, ((parse_comment_iff accepted inside comment).2 splits).mpr (.inr (.inr blanks))⟩

/-- A comment that cuts the blank off in front of a text: without it the blank stays,
    with it the blank is lost. -/
theorem parse_comment_behindBlank :
    parse ("<receipt><line> " ++ "a</line></receipt>")
        = .ok ⟨"receipt", [], [.element "line" [] [.text " a"]]⟩
      ∧ parse ("<receipt><line> " ++ Xml.commentText "x" ++ "a</line></receipt>")
        = .ok ⟨"receipt", [], [.element "line" [] [.text "a"]]⟩ := by
  have hwithout : Xml.tokens? ("<receipt><line> " ++ "a</line></receipt>")
      = some [.opening ⟨"", "receipt"⟩ [] false, .opening ⟨"", "line"⟩ [] false,
        .text [' ', 'a'], .closing ⟨"", "line"⟩, .closing ⟨"", "receipt"⟩] := by
    decide +kernel
  have hwith : Xml.tokens? ("<receipt><line> " ++ Xml.commentText "x" ++ "a</line></receipt>")
      = some [.opening ⟨"", "receipt"⟩ [] false, .opening ⟨"", "line"⟩ [] false, .text [' '],
        .comment, .text ['a'], .closing ⟨"", "line"⟩, .closing ⟨"", "receipt"⟩] := by
    decide +kernel
  constructor
  · rw [parse, parseWith, Xml.parse?, hwithout]
    with_unfolding_all rfl
  · rw [parse, parseWith, Xml.parse?, hwith]
    with_unfolding_all rfl

end ReceiptPrinter.Markup
