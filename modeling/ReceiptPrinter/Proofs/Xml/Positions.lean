import ReceiptPrinter.Proofs.Xml.Content
import ReceiptPrinter.Proofs.Xml.Places
import ReceiptPrinter.Proofs.Xml.Tokens

/-! # Positions — a comment in the content of an element

    A position in a document is given by what stands before it and what stands
    behind it.  It is a position in content if an element is open there
    (`openElement?`), and then the texts on both sides of it are known from the two
    parts alone (`textBefore`, `textAfter`).

    A comment at such a position is a part of its own in the tree, with these two
    texts as pieces on either side; without it they are one piece, and the rest of
    the tree is the same (`parse?_comment`). -/

namespace ReceiptPrinter.Xml

/-! ## Texts next to a position -/

/-- The innermost element that is open behind the beginning of a document. -/
def openElement? (before : String) : Option Frame :=
  ((tokens? before).bind (Builder.takeAll ⟨[], none⟩)).bind (·.frames.head?)

/-- The text that the children of an open element end with. -/
def Frame.lastText (f : Frame) : String :=
  match f.children with
  | .text content :: _ => content
  | _ => ""

/-- The text that a beginning of a document ends with. -/
def textBefore (before : String) : String :=
  ((openElement? before).map Frame.lastText).getD ""

/-- The text that a token stands for, if it is text that can be read. -/
def Token.text? : Token → Option String
  | .text written => (contentText? written).map String.ofList
  | .data written => some (String.ofList (uniformLines written))
  | _ => none

/-- The text that tokens begin with. -/
def leadingText : List Token → String
  | [] => ""
  | t :: rest =>
    match t.text? with
    | some content => content ++ leadingText rest
    | none => ""

/-- The text that the end of a document begins with. -/
def textAfter (after : String) : String :=
  ((tokensOnto [] after.toList).map leadingText).getD ""

/-- What the end of a document begins with up to its first markup. -/
def leadingRun (after : String) : String :=
  String.ofList (after.toList.takeWhile (· ≠ '<'))

/-- A position where the text that is read across it is the texts on both sides. -/
def SplitsText (before after : String) : Prop :=
  textBefore (before ++ leadingRun after) = textBefore before ++ textAfter (leadingRun after)

/-! ## Pieces of text -/

/-- Nodes that are one text, or none if it is empty. -/
def IsPiece (nodes : List Node) (text : String) : Prop :=
  nodes = [.text text] ∨ nodes = [] ∧ text = ""

/-- An open element whose children are some others and then a text.  If there is no
    text, none comes before it either. -/
def Frame.Ends (f : Frame) (before : List Node) (text : String) : Prop :=
  ∃ piece, f.children = piece ++ before ∧ IsPiece piece text
    ∧ (piece = [] → ∀ content rest, before ≠ .text content :: rest)

theorem IsPiece.reverse {nodes : List Node} {text : String} (h : IsPiece nodes text) :
    nodes.reverse = nodes := by
  rcases h with rfl | ⟨rfl, -⟩ <;> rfl

section

variable {f : Frame} {before : List Node} {text : String}

/-- Every open element ends with a text, which may be empty. -/
theorem exists_ends (f : Frame) : ∃ before text, f.Ends before text := by
  cases hchildren : f.children with
  | nil => exact ⟨[], "", [], hchildren, .inr ⟨rfl, rfl⟩, fun _ _ _ h => by cases h⟩
  | cons x rest =>
      cases x with
      | text content =>
          exact ⟨rest, content, [.text content], hchildren, .inl rfl, fun h => by cases h⟩
      | _ =>
          refine ⟨f.children, "", [], rfl, .inr ⟨rfl, rfl⟩, ?_⟩
          intro _ content others h
          rw [hchildren] at h
          cases h

/-- Behind a comment an element ends with no text. -/
theorem ends_addChild_comment (f : Frame) :
    (f.addChild .comment).Ends (.comment :: f.children) "" :=
  ⟨[], rfl, .inr ⟨rfl, rfl⟩, fun _ _ _ h => by cases h⟩

theorem Frame.Ends.lastText (h : f.Ends before text) : f.lastText = text := by
  obtain ⟨piece, hchildren, rfl | ⟨rfl, rfl⟩, plain⟩ := h
  · rw [Frame.lastText, hchildren]
    rfl
  · rw [Frame.lastText, hchildren, List.nil_append]
    split
    next content rest => exact absurd rfl (plain rfl _ _)
    · rfl

theorem Frame.Ends.addText (h : f.Ends before text) (content : String) :
    (f.addText content).Ends before (text ++ content) := by
  obtain ⟨piece, hchildren, rfl | ⟨rfl, rfl⟩, plain⟩ := h
  · refine ⟨[.text (text ++ content)], ?_, .inl rfl, fun h => by cases h⟩
    rw [Frame.addText, hchildren]
    rfl
  · refine ⟨[.text content], ?_, .inl (by simp), fun h => by cases h⟩
    rw [Frame.addText, hchildren, List.nil_append]
    split
    next content rest => exact absurd rfl (plain rfl _ _)
    · rfl

/-- Text changes nothing but the children of an element. -/
theorem Frame.addText_eq (f : Frame) (content : String) :
    f.addText content = { f with children := (f.addText content).children } := by
  rw [Frame.addText]
  split <;> rfl

end

/-! ## Runs of text -/

/-- Tokens that are text which can be read. -/
def Readable (ts : List Token) : Prop :=
  ∀ t ∈ ts, t.text?.isSome = true

section

variable {t : Token} {ts : List Token} {f : Frame} {outer : List Frame} {root : Option Node}

theorem take_of_text? {content : String} (h : t.text? = some content) :
    (⟨f :: outer, root⟩ : Builder).take t = some ⟨f.addText content :: outer, root⟩ := by
  cases t with
  | text written =>
      obtain ⟨cs, hcs, rfl⟩ := Option.map_eq_some_iff.mp h
      show (contentText? written).map _ = _
      rw [hcs]
      rfl
  | data written =>
      cases h
      rfl
  | _ => cases h

theorem isSome_text?_of_take (ht : t.isText = true) {b : Builder}
    (h : (⟨f :: outer, root⟩ : Builder).take t = some b) : t.text?.isSome = true := by
  cases t with
  | text written =>
      change (contentText? written).map _ = _ at h
      obtain ⟨cs, hcs, -⟩ := Option.map_eq_some_iff.mp h
      rw [Token.text?, hcs]
      rfl
  | data written => rfl
  | _ => cases ht

/-- A run of text is joined to the text that an element ends with. -/
theorem takeAll_of_readable (readable : Readable ts) (outer : List Frame) (root : Option Node)
    {before : List Node} {text : String} (h : f.Ends before text) :
    ∃ g, (⟨f :: outer, root⟩ : Builder).takeAll ts
        = some ⟨g :: outer, root⟩
      ∧ g.Ends before (text ++ leadingText ts) ∧ g = { f with children := g.children } := by
  induction ts generalizing f text with
  | nil => exact ⟨f, rfl, by rwa [leadingText, String.append_empty], rfl⟩
  | cons t ts ih =>
      rw [Readable, List.forall_mem_cons] at readable
      obtain ⟨content, hcontent⟩ := Option.isSome_iff_exists.mp readable.1
      obtain ⟨g, hg, hends, hfields⟩ := ih readable.2 (h.addText content)
      refine ⟨g, ?_, ?_, ?_⟩
      · rw [Builder.takeAll, take_of_text? hcontent, Option.bind_some, hg]
      · rw [leadingText, hcontent, ← String.append_assoc]
        exact hends
      · rw [f.addText_eq] at hfields
        exact hfields

/-- Text that is taken can be read. -/
theorem readable_of_takeAll (ht : ∀ t ∈ ts, t.isText = true) (us : List Token) {b : Builder}
    (h : (⟨f :: outer, root⟩ : Builder).takeAll (ts ++ us) = some b) : Readable ts := by
  induction ts generalizing f with
  | nil => exact List.forall_mem_nil _
  | cons t ts ih =>
      rw [List.forall_mem_cons] at ht
      obtain ⟨c, hc, h⟩ := Option.bind_eq_some_iff.mp h
      have readable := isSome_text?_of_take ht.1 hc
      obtain ⟨content, hcontent⟩ := Option.isSome_iff_exists.mp readable
      rw [take_of_text? hcontent] at hc
      cases hc
      exact List.forall_mem_cons.mpr ⟨readable, ih ht.2 h⟩

theorem leadingText_append (readable : Readable ts) (us : List Token) :
    leadingText (ts ++ us) = leadingText ts ++ leadingText us := by
  induction ts with
  | nil => exact (String.empty_append).symm
  | cons t ts ih =>
      rw [Readable, List.forall_mem_cons] at readable
      obtain ⟨content, hcontent⟩ := Option.isSome_iff_exists.mp readable.1
      rw [List.cons_append, leadingText, leadingText, hcontent]
      dsimp only
      rw [ih readable.2, String.append_assoc]

theorem leadingText_of_other {us : List Token} (first : ∀ t ∈ us.head?, t.isText = false) :
    leadingText us = "" := by
  cases us with
  | nil => rfl
  | cons t us =>
      have ht : t.isText = false := first t rfl
      cases t <;> first | rfl | cases ht

end

section

variable {written cs : List Char}

theorem readable_textTokens (h : contentText? written = some cs) :
    Readable (textTokens written) := by
  rw [textTokens]
  split
  · exact List.forall_mem_nil _
  · refine List.forall_mem_singleton.mpr ?_
    rw [Token.text?, h]
    rfl

theorem leadingText_textTokens (h : contentText? written = some cs) :
    leadingText (textTokens written) = String.ofList cs := by
  cases written with
  | nil =>
      rw [contentText?, RawReading.resolve?_nil] at h
      cases h
      rfl
  | cons c written =>
      rw [textTokens_cons, leadingText, Token.text?, h]
      exact String.append_empty

end

/-! ## Cuts -/

theorem hasMark_of_append {mark xs ys : List Char} (h : ¬ hasMark mark (xs ++ ys) = true) :
    ¬ hasMark mark xs = true ∧ ¬ hasMark mark ys = true := by
  rw [hasMark_iff] at h ⊢
  rw [hasMark_iff]
  exact ⟨fun hx => h (hx.trans (List.prefix_append xs ys).isInfix),
    fun hy => h (hy.trans (List.suffix_append xs ys).isInfix)⟩

/-- A document that is cut within the content of an element.  The cut runs through
    the text `written ++ run`, which may be empty. -/
structure Cut (before after : String) (e : Node) where
  /-- The document up to the text. -/
  front : List Char
  /-- The text in front of the cut. -/
  written : List Char
  /-- The text behind the cut. -/
  run : List Char
  /-- The document behind the text. -/
  rest : List Char
  /-- The tokens in front of the text. -/
  done : List Token
  /-- The tokens behind the text. -/
  behind : List Token
  /-- The innermost element that is open in front of the text. -/
  frame : Frame
  outer : List Frame
  root : Option Node
  /-- What the parts of the text stand for, and the whole. -/
  first : List Char
  second : List Char
  whole : List Char
  before_eq : before.toList = front ++ written
  after_eq : after.toList = run ++ rest
  leading : leadingRun after = String.ofList run
  plain : '<' ∉ written ++ run
  border : ∀ c ∈ rest.head?, c = '<'
  unmarked : ¬ hasMark [']', ']', '>'] (written ++ run) = true
  allowed : (written ++ (run ++ rest)).all isAllowed = true
  reads : ∀ x : List Char, tokens? (String.ofList (front ++ x))
    = if x.all isAllowed then tokensOnto done.reverse x else none
  behind_eq : tokensOnto [] rest = some behind
  opened : Builder.takeAll ⟨[], none⟩ done = some ⟨frame :: outer, root⟩
  first_eq : contentText? written = some first
  second_eq : contentText? run = some second
  whole_eq : contentText? (written ++ run) = some whole
  closed : (⟨frame :: outer, root⟩ : Builder).takeAll (textTokens (written ++ run) ++ behind)
    = some ⟨[], some e⟩

theorem parse?_eq_some_iff {s : String} {e : Node} : parse? s = some e
    ↔ (tokens? s).bind (Builder.takeAll ⟨[], none⟩) = some ⟨[], some e⟩ := by
  rw [parse?]
  split
  next root h => simp [h]
  next h =>
    constructor
    · intro h'
      cases h'
    · intro h'
      exact (h _ h').elim

/-- Text outside of all elements opens none. -/
theorem frames_of_textTokens {written : List Char} {root : Option Node} {b : Builder}
    (h : (⟨[], root⟩ : Builder).takeAll (textTokens written) = some b) : b.frames = [] := by
  cases written with
  | nil =>
      cases h
      rfl
  | cons c written =>
      rw [textTokens_cons] at h
      obtain ⟨b', hb', h⟩ := Option.bind_eq_some_iff.mp h
      cases h
      change (if _ then some (Builder.mk [] root) else none) = some b at hb'
      split at hb'
      · cases hb'
        rfl
      · cases hb'

theorem exists_of_readable {written : List Char} (h : Readable (textTokens written)) :
    ∃ cs, contentText? written = some cs := by
  cases written with
  | nil => exact ⟨[], RawReading.resolve?_nil⟩
  | cons c written =>
      rw [textTokens_cons, Readable, List.forall_mem_singleton, Token.text?,
        Option.isSome_map] at h
      exact Option.isSome_iff_exists.mp h

theorem isText_of_mem_textTokens {written : List Char} : ∀ t ∈ textTokens written,
    t.isText = true := by
  rw [textTokens]
  split
  · exact List.forall_mem_nil _
  · exact List.forall_mem_singleton.mpr rfl

/-- In front of a position in content stands a beginning that opens an element, and then
    text that can be read. -/
theorem exists_opened {before : String} (inside : (openElement? before).isSome = true) :
    ∃ (front written first : List Char) (done : List Token) (frame : Frame) (outer : List Frame)
      (root : Option Node), before.toList = front ++ written ∧ '<' ∉ written
      ∧ contentText? written = some first
      ∧ Builder.takeAll ⟨[], none⟩ done = some ⟨frame :: outer, root⟩
      ∧ ∀ x : List Char, tokens? (String.ofList (front ++ x))
          = if x.all isAllowed then tokensOnto done.reverse x else none := by
  obtain ⟨f, hf⟩ := Option.isSome_iff_exists.mp inside
  obtain ⟨b, hb, hhead⟩ := Option.bind_eq_some_iff.mp hf
  obtain ⟨ts, hts, hb⟩ := Option.bind_eq_some_iff.mp hb
  obtain ⟨front, written, done, hbefore, plain, rfl, hreads⟩ := tokens?_append hts
  rw [takeAll_append] at hb
  obtain ⟨⟨frames, root⟩, hdone, hwritten⟩ := Option.bind_eq_some_iff.mp hb
  cases frames with
  | nil =>
      rw [frames_of_textTokens hwritten] at hhead
      cases hhead
  | cons frame outer =>
      obtain ⟨first, hfirst⟩ := exists_of_readable
        (readable_of_takeAll isText_of_mem_textTokens [] (by rwa [List.append_nil]))
      have hne : done ≠ [] := by
        rintro rfl
        cases hdone
      exact ⟨front, written, first, done, frame, outer, root, hbefore, plain, hfirst, hdone,
        hreads hne⟩

/-- Every document can be cut where an element is open. -/
theorem exists_cut {before after : String} {e : Node} (h : parse? (before ++ after) = some e)
    (inside : (openElement? before).isSome = true) : Nonempty (Cut before after e) := by
  rw [parse?_eq_some_iff] at h
  obtain ⟨all, hall, hrun⟩ := Option.bind_eq_some_iff.mp h
  obtain ⟨front, written, first, done, frame, outer, root, hbefore, plain, hfirst, hdone,
    hreads⟩ := exists_opened inside
  -- The document behind the cut goes on with text up to the next markup.
  obtain ⟨run, rest, hafter, hrunEq, hrunPlain, border⟩ : ∃ run rest : List Char,
      after.toList = run ++ rest ∧ leadingRun after = String.ofList run ∧ '<' ∉ run
        ∧ ∀ c ∈ rest.head?, c = '<' :=
    ⟨_, _, List.takeWhile_append_dropWhile.symm, rfl, not_mem_run _, eq_of_mem_head?_behindRun _⟩
  have plain' : '<' ∉ written ++ run := by
    rw [List.mem_append, not_or]
    exact ⟨plain, hrunPlain⟩
  have hwhole : before ++ after = String.ofList (front ++ (written ++ (run ++ rest))) := by
    rw [← String.toList_inj, String.toList_append, String.toList_ofList, hbefore, hafter,
      List.append_assoc]
  rw [hwhole, hreads] at hall
  split at hall
  next allowed =>
    rw [← List.append_assoc, tokensOnto_run plain' rest border] at hall
    split at hall
    · cases hall
    next unmarked =>
      rw [tokensOnto_eq] at hall
      obtain ⟨behind, hbehind, rfl⟩ := Option.map_eq_some_iff.mp hall
      have htokens : ((textTokens (written ++ run)).reverse ++ done.reverse).reverse ++ behind
          = done ++ (textTokens (written ++ run) ++ behind) := by simp
      rw [htokens, takeAll_append, hdone, Option.bind_some] at hrun
      obtain ⟨whole, hwholeEq⟩ := exists_of_readable
        (readable_of_takeAll isText_of_mem_textTokens behind hrun)
      obtain ⟨second, hsecond⟩ := exists_of_contentText?_append hwholeEq hfirst
      exact ⟨{
        front, written, run, rest, done, behind, frame, outer, root, first, second, whole
        before_eq := hbefore
        after_eq := hafter
        leading := hrunEq
        plain := plain'
        border
        unmarked
        allowed
        reads := hreads
        behind_eq := hbehind
        opened := hdone
        first_eq := hfirst
        second_eq := hsecond
        whole_eq := hwholeEq
        closed := hrun }⟩
  · cases hall

/-- A comment as it is written. -/
def commentText (body : String) : String :=
  "<!--" ++ body ++ "-->"

namespace Cut

variable {before after : String} {e : Node} (c : Cut before after e)

theorem parts : ('<' ∉ c.written ∧ '<' ∉ c.run)
    ∧ c.written.all isAllowed = true ∧ (c.run ++ c.rest).all isAllowed = true := by
  have plain := c.plain
  have allowed := c.allowed
  rw [List.mem_append, not_or] at plain
  rw [List.all_append, Bool.and_eq_true] at allowed
  exact ⟨plain, allowed⟩

/-- What stands in front of the text, with some other text behind it. -/
theorem openElement?_of {w cs : List Char} (plain : '<' ∉ w)
    (unmarked : ¬ hasMark [']', ']', '>'] w = true) (allowed : w.all isAllowed = true)
    (hw : contentText? w = some cs) {base : List Node} {text : String}
    (ends : c.frame.Ends base text) : ∃ g, openElement? (String.ofList (c.front ++ w)) = some g
      ∧ (⟨c.frame :: c.outer, c.root⟩ : Builder).takeAll (textTokens w)
          = some ⟨g :: c.outer, c.root⟩
      ∧ g.Ends base (text ++ String.ofList cs) ∧ g = { c.frame with children := g.children } := by
  obtain ⟨g, hg, hends, hfields⟩ :=
    takeAll_of_readable (readable_textTokens hw) c.outer c.root ends
  rw [leadingText_textTokens hw] at hends
  refine ⟨g, ?_, hg, hends, hfields⟩
  have htokens : tokens? (String.ofList (c.front ++ w)) = some (c.done ++ textTokens w) := by
    have hrun := tokensOnto_run plain [] (by simp) c.done.reverse
    rw [List.append_nil, if_neg unmarked, tokensOnto_nil] at hrun
    rw [c.reads, if_pos allowed, hrun]
    simp
  rw [openElement?, htokens, Option.bind_some, takeAll_append, c.opened, Option.bind_some, hg]
  rfl

/-- The element that is open at the cut ends with the text in front of it. -/
theorem openElement?_before {base : List Node} {text : String} (ends : c.frame.Ends base text) :
    ∃ g, openElement? before = some g
      ∧ (⟨c.frame :: c.outer, c.root⟩ : Builder).takeAll (textTokens c.written)
          = some ⟨g :: c.outer, c.root⟩
      ∧ g.Ends base (text ++ String.ofList c.first)
      ∧ g = { c.frame with children := g.children } := by
  have h := c.openElement?_of c.parts.1.1 (hasMark_of_append c.unmarked).1 c.parts.2.1 c.first_eq
    ends
  rwa [← c.before_eq, String.ofList_toList] at h

theorem textBefore_eq {base : List Node} {text : String} (ends : c.frame.Ends base text) :
    textBefore before = text ++ String.ofList c.first := by
  obtain ⟨g, hg, -, hends, -⟩ := c.openElement?_before ends
  rw [textBefore, hg, Option.map_some, Option.getD_some, hends.lastText]

theorem textBefore_run {base : List Node} {text : String} (ends : c.frame.Ends base text) :
    textBefore (before ++ leadingRun after) = text ++ String.ofList c.whole := by
  have allowed : (c.written ++ c.run).all isAllowed = true := by
    have h := c.allowed
    rw [← List.append_assoc, List.all_append, Bool.and_eq_true] at h
    exact h.1
  have hbefore : before ++ leadingRun after = String.ofList (c.front ++ (c.written ++ c.run)) := by
    rw [c.leading, ← String.toList_inj, String.toList_append, String.toList_ofList,
      String.toList_ofList, c.before_eq, List.append_assoc]
  obtain ⟨g, hg, -, hends, -⟩ := c.openElement?_of c.plain c.unmarked allowed c.whole_eq ends
  rw [hbefore, textBefore, hg, Option.map_some, Option.getD_some, hends.lastText]

theorem tokensOnto_after : tokensOnto [] after.toList = some (textTokens c.run ++ c.behind) := by
  rw [c.after_eq, tokensOnto_run c.parts.1.2 _ c.border, if_neg (hasMark_of_append c.unmarked).2,
    tokensOnto_eq, c.behind_eq]
  simp

theorem textAfter_eq : textAfter after = String.ofList c.second ++ leadingText c.behind := by
  rw [textAfter, c.tokensOnto_after, Option.map_some, Option.getD_some,
    leadingText_append (readable_textTokens c.second_eq), leadingText_textTokens c.second_eq]

theorem textAfter_run : textAfter (leadingRun after) = String.ofList c.second := by
  have hrun := tokensOnto_run c.parts.1.2 [] (by simp) []
  rw [List.append_nil, if_neg (hasMark_of_append c.unmarked).2, tokensOnto_nil] at hrun
  rw [textAfter, c.leading, String.toList_ofList, hrun]
  simp [leadingText_textTokens c.second_eq]

/-- The text is split if the parts of it say what the whole says. -/
theorem splitsText_iff : SplitsText before after ↔ c.whole = c.first ++ c.second := by
  obtain ⟨base, text, ends⟩ := exists_ends c.frame
  rw [SplitsText, c.textBefore_run ends, c.textBefore_eq ends, c.textAfter_run,
    ← String.toList_inj]
  simp

/-- The tokens of the document with a comment at the cut. -/
theorem tokens?_comment {body : String} (comment : IsComment body.toList) :
    tokens? (before ++ commentText body ++ after)
      = some (c.done ++ (textTokens c.written ++ .comment :: (textTokens c.run ++ c.behind))) := by
  have hwhole : before ++ commentText body ++ after = String.ofList (c.front ++ (c.written
      ++ '<' :: '!' :: '-' :: '-' :: (body.toList ++ '-' :: '-' :: '>' :: (c.run ++ c.rest)))) := by
    rw [← String.toList_inj, String.toList_append, String.toList_append, String.toList_ofList,
      c.before_eq, c.after_eq, commentText]
    simp
  have allowed : (c.written ++ '<' :: '!' :: '-' :: '-' ::
      (body.toList ++ '-' :: '-' :: '>' :: (c.run ++ c.rest))).all isAllowed = true := by
    have opening : ['<', '!', '-', '-'].all isAllowed = true := by decide
    have closing : ['-', '-', '>'].all isAllowed = true := by decide
    show (c.written ++ (['<', '!', '-', '-'] ++ (body.toList ++ (['-', '-', '>']
      ++ (c.run ++ c.rest))))).all isAllowed = true
    rw [List.all_append, List.all_append, List.all_append, List.all_append, c.parts.2.1, opening,
      comment.1, closing, c.parts.2.2]
    rfl
  have hmarkup : readMarkup ('!' :: '-' :: '-' :: (body.toList ++ '-' :: '-' :: '>' ::
      (c.run ++ c.rest))) = some (.comment, c.run ++ c.rest) :=
    readComment_append comment _
  rw [hwhole, c.reads, if_pos allowed, tokensOnto_run c.parts.1.1 _ (by simp),
    if_neg (hasMark_of_append c.unmarked).1, tokensOnto_markup hmarkup,
    tokensOnto_run c.parts.1.2 _ c.border, if_neg (hasMark_of_append c.unmarked).2,
    tokensOnto_eq, c.behind_eq]
  simp

/-! ### The rest of the text -/

/-- The text that goes on behind the next border of character data. -/
def lead : List Token := c.behind.takeWhile Token.isText

/-- The tokens behind all of the text. -/
def others : List Token := c.behind.dropWhile Token.isText

theorem lead_append_others : c.lead ++ c.others = c.behind :=
  List.takeWhile_append_dropWhile

theorem isText_of_mem_head?_others : ∀ t ∈ c.others.head?, t.isText = false := by
  intro t ht
  exact not_of_mem_head?_dropWhile ht

theorem readable_lead : Readable c.lead := by
  have texts : ∀ t ∈ textTokens (c.written ++ c.run) ++ c.lead, t.isText = true := by
    intro t ht
    rcases List.mem_append.mp ht with ht | ht
    · exact isText_of_mem_textTokens t ht
    · exact List.all_eq_true.mp List.all_takeWhile t ht
  have closed := c.closed
  rw [← c.lead_append_others, ← List.append_assoc] at closed
  have readable := readable_of_takeAll texts c.others closed
  exact fun t ht => readable t (List.mem_append_right _ ht)

theorem leadingText_behind : leadingText c.behind = leadingText c.lead := by
  rw [← c.lead_append_others, leadingText_append c.readable_lead,
    leadingText_of_other c.isText_of_mem_head?_others, String.append_empty]

/-- A written text at the cut and what goes on behind it are joined to the text that
    an element ends with. -/
theorem takeAll_lead {w cs : List Char} (hw : contentText? w = some cs) {f : Frame}
    {base : List Node} {text : String} (ends : f.Ends base text) :
    ∃ piece, (⟨f :: c.outer, c.root⟩ : Builder).takeAll (textTokens w ++ c.lead)
        = some ⟨{ f with children := piece ++ base } :: c.outer, c.root⟩
      ∧ IsPiece piece (text ++ (String.ofList cs ++ leadingText c.lead)) := by
  have readable : Readable (textTokens w ++ c.lead) := by
    intro t ht
    rcases List.mem_append.mp ht with ht | ht
    · exact readable_textTokens hw t ht
    · exact c.readable_lead t ht
  obtain ⟨g, hg, ⟨piece, hchildren, hpiece, -⟩, hfields⟩ :=
    takeAll_of_readable readable c.outer c.root ends
  rw [leadingText_append (readable_textTokens hw), leadingText_textTokens hw] at hpiece
  rw [hchildren] at hfields
  exact ⟨piece, by rw [hg, hfields], hpiece⟩

/-- The document read up to the text, with the text as its place. -/
def site (base : List Node) : Site :=
  ⟨[], c.frame, [], [], base, c.outer, c.root⟩

theorem site_builder (base content : List Node) : (c.site base).builder content
    = ⟨{ c.frame with children := content.reverse ++ base } :: c.outer, c.root⟩ :=
  rfl

/-- The tree of the document is read around the text, which is one piece. -/
theorem exists_around {base : List Node} {text : String} (ends : c.frame.Ends base text) :
    ∃ (l : Layer) (layers : List Layer) (whole : List Node),
      IsPiece whole (text ++ (String.ofList c.whole ++ leadingText c.lead))
      ∧ e = l.wrap (Layer.fill layers whole)
      ∧ ∀ content, ((c.site base).builder content).takeAll c.others
          = some ⟨[], some (l.wrap (Layer.fill layers content))⟩ := by
  obtain ⟨whole, hwhole, wholePiece⟩ := c.takeAll_lead c.whole_eq ends
  have closed := c.closed
  rw [← c.lead_append_others, ← List.append_assoc, takeAll_append, hwhole, Option.bind_some,
    ← wholePiece.reverse, ← c.site_builder] at closed
  obtain ⟨l, layers, haround⟩ := Site.takeAll_around c.isText_of_mem_head?_others closed
  refine ⟨l, layers, whole, wholePiece, ?_, haround⟩
  rw [haround] at closed
  cases closed
  rfl

/-- With a comment there it is two pieces. -/
theorem parse?_pieces {body : String} (comment : IsComment body.toList) {base : List Node}
    {text : String} (ends : c.frame.Ends base text) {l : Layer} {layers : List Layer}
    (around : ∀ content, ((c.site base).builder content).takeAll c.others
      = some ⟨[], some (l.wrap (Layer.fill layers content))⟩) :
    ∃ front back : List Node, IsPiece front (textBefore before) ∧ IsPiece back (textAfter after)
      ∧ parse? (before ++ commentText body ++ after)
          = some (l.wrap (Layer.fill layers (front ++ .comment :: back))) := by
  obtain ⟨f, -, hf, fEnds, fFields⟩ := c.openElement?_before ends
  obtain ⟨front, hfront, frontPiece, -⟩ := fEnds
  obtain ⟨back, hback, backPiece⟩ := c.takeAll_lead c.second_eq (ends_addChild_comment f)
  rw [← c.textBefore_eq ends] at frontPiece
  rw [String.empty_append, ← c.leadingText_behind, ← c.textAfter_eq] at backPiece
  refine ⟨front, back, frontPiece, backPiece, ?_⟩
  have hchildren : back ++ .comment :: f.children
      = (front ++ .comment :: back).reverse ++ base := by
    rw [hfront, List.reverse_append, List.reverse_cons, backPiece.reverse, frontPiece.reverse]
    simp
  have hframe : { f.addChild .comment with children := back ++ Node.comment :: f.children }
      = { c.frame with children := (front ++ Node.comment :: back).reverse ++ base } := by
    rw [← hchildren, fFields]
    rfl
  rw [parse?_eq_some_iff, c.tokens?_comment comment, Option.bind_some, takeAll_append, c.opened,
    Option.bind_some, takeAll_append, hf, Option.bind_some]
  show (Builder.mk (f.addChild .comment :: c.outer) c.root).takeAll (textTokens c.run ++ c.behind)
    = _
  rw [← c.lead_append_others, ← List.append_assoc, takeAll_append, hback, Option.bind_some,
    hframe, ← c.site_builder, around]

end Cut

/-- **A COMMENT SPLITS THE TEXT AROUND IT** and does nothing else.  Without it the two
    texts at its position are one piece, with it they are two. -/
theorem parse?_comment {before after body : String} {e : Node}
    (h : parse? (before ++ after) = some e) (inside : (openElement? before).isSome = true)
    (comment : IsComment body.toList) :
    ∃ (l : Layer) (layers : List Layer) (whole front back : List Node) (text : String),
      e = l.wrap (Layer.fill layers whole)
      ∧ parse? (before ++ commentText body ++ after)
          = some (l.wrap (Layer.fill layers (front ++ .comment :: back)))
      ∧ IsPiece whole text ∧ IsPiece front (textBefore before) ∧ IsPiece back (textAfter after)
      ∧ (SplitsText before after → text = textBefore before ++ textAfter after) := by
  obtain ⟨c⟩ := exists_cut h inside
  obtain ⟨base, text, ends⟩ := exists_ends c.frame
  obtain ⟨l, layers, whole, wholePiece, rfl, around⟩ := c.exists_around ends
  obtain ⟨front, back, frontPiece, backPiece, hcomment⟩ := c.parse?_pieces comment ends around
  refine ⟨l, layers, whole, front, back, _, rfl, hcomment, wholePiece, frontPiece, backPiece, ?_⟩
  intro splits
  rw [c.textBefore_eq ends, c.textAfter_eq, c.leadingText_behind, c.splitsText_iff.mp splits,
    String.ofList_append]
  simp only [String.append_assoc]

/-- Away from carriage returns every position splits the text. -/
theorem splitsText_of_noReturn {before after : String} {e : Node}
    (h : parse? (before ++ after) = some e) (inside : (openElement? before).isSome = true)
    (last : before.toList.getLast? ≠ some '\r') (first : after.toList.head? ≠ some '\r') :
    SplitsText before after := by
  obtain ⟨c⟩ := exists_cut h inside
  rw [c.before_eq] at last
  have first' : c.run.head? ≠ some '\r' := by
    intro hrun
    refine first ?_
    rw [c.after_eq, List.head?_append, hrun]
    rfl
  have hwhole := contentText?_append c.first_eq c.second_eq (getLast?_of_append _ last) first'
  rw [c.whole_eq] at hwhole
  exact c.splitsText_iff.mpr (Option.some.inj hwhole)

end ReceiptPrinter.Xml
