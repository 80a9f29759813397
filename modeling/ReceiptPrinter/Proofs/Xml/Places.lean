import ReceiptPrinter.Xml.Tree

/-! # Places — a tree around something unknown

    While a document is read, the part that stands at one place of it may be left
    open.  `Site` is a document under construction with such a place, and what is
    put there is filled in later.  A token that is read does the same to the
    document whatever stands at the place (`Stage.take_settled`), because an
    element looks only at the last of its children, and only to join a text to it.

    So a document whose rest can be read around one content can be read around any
    other, and the two trees differ at this place alone (`takeAll_around`). -/

namespace ReceiptPrinter.Xml

/-! ## Trees with a place -/

/-- An element around a place: what stands in it before and behind. -/
structure Layer where
  name : String
  attributes : List Attribute
  before : List Node
  behind : List Node

/-- The element with something at its place. -/
def Layer.wrap (l : Layer) (content : List Node) : Node :=
  .element l.name l.attributes (l.before ++ content ++ l.behind)

/-- What stands at a place within elements, the outermost first. -/
def Layer.fill : List Layer → List Node → List Node
  | [], content => content
  | l :: inner, content => [l.wrap (Layer.fill inner content)]

/-- A document under construction with a place in an element that is open. -/
structure Site where
  /-- The elements that were opened behind the place and are open yet. -/
  inner : List Frame
  /-- The element that the place is in; its children are those below. -/
  frame : Frame
  /-- The children behind the place, the last one first. -/
  behind : List Node
  /-- The elements around the place that are closed. -/
  layers : List Layer
  /-- The children in front of the place, the last one first. -/
  before : List Node
  outer : List Frame
  root : Option Node

namespace Site

/-- The element that the place is in, with something at the place. -/
def around (s : Site) (content : List Node) : Frame :=
  { s.frame with children := s.behind ++ ((Layer.fill s.layers content).reverse ++ s.before) }

/-- The document with something at the place. -/
def builder (s : Site) (content : List Node) : Builder :=
  ⟨s.inner ++ s.around content :: s.outer, s.root⟩

/-- A site at whose place no text is joined any more. -/
def Settled (s : Site) : Prop :=
  s.inner ≠ [] ∨ s.behind ≠ [] ∨ s.layers ≠ []

/-- The innermost element that is open, without the children of the place. -/
def top (s : Site) : Frame :=
  s.inner.headD s.frame

/-- Opens an element. -/
def push (s : Site) (f : Frame) : Site :=
  { s with inner := f :: s.inner }

/-- Adds a child that is no text. -/
def addChild (s : Site) (child : Node) : Site :=
  match s.inner with
  | [] => { s with behind := child :: s.behind }
  | f :: rest => { s with inner := f.addChild child :: rest }

/-- Adds text. -/
def addText (s : Site) (content : String) : Site :=
  match s.inner with
  | [] => { s with behind := ({ s.frame with children := s.behind }.addText content).children }
  | f :: rest => { s with inner := f.addText content :: rest }

end Site

/-- A document with a place: in an element that is open, or in the closed root. -/
inductive Stage where
  | open (s : Site)
  | closed (root : Layer) (layers : List Layer)

/-- The document with something at the place. -/
def Stage.builder : Stage → List Node → Builder
  | .open s, content => s.builder content
  | .closed root layers, content => ⟨[], some (root.wrap (Layer.fill layers content))⟩

/-- A stage at whose place no text is joined any more. -/
def Stage.Settled : Stage → Prop
  | .open s => s.Settled
  | .closed _ _ => True

namespace Site

/-- The element that the place is in, when it is closed. -/
def layer (s : Site) : Layer :=
  ⟨s.frame.name.name, s.frame.attributes, s.before.reverse, s.behind.reverse⟩

/-- Closes the innermost element. -/
def pop (s : Site) : Stage :=
  match s.inner with
  | f :: rest => .open ({ s with inner := rest }.addChild f.close)
  | [] =>
    match s.outer with
    | [] => .closed s.layer s.layers
    | f :: rest => .open ⟨[], f, [], s.layer :: s.layers, f.children, rest, s.root⟩

variable (s : Site) (content : List Node)

theorem addAside_builder (e : Node) :
    (s.builder content).addAside e = (s.addChild e).builder content := by
  obtain ⟨inner, frame, behind, layers, before, outer, root⟩ := s
  cases inner <;> rfl

theorem take_opening (name : QName) (written : List (QName × List Char)) (closed : Bool) :
    (s.builder content).take (.opening name written closed)
      = (Frame.open? s.top.spaces name written).map fun f =>
          (if closed then s.addChild f.close else s.push f).builder content := by
  obtain ⟨inner, frame, behind, layers, before, outer, root⟩ := s
  cases inner <;> cases closed <;> rfl

theorem close_around : (s.around content).close = s.layer.wrap (Layer.fill s.layers content) := by
  simp [Frame.close, around, layer, Layer.wrap]

theorem take_closing (name : QName) :
    (s.builder content).take (.closing name)
      = if s.top.name = name then some (s.pop.builder content) else none := by
  have hclose := s.close_around content
  obtain ⟨inner, frame, behind, layers, before, outer, root⟩ := s
  cases inner with
  | cons f rest => cases rest <;> rfl
  | nil =>
      show (if frame.name = name then
        some (Builder.addElement ⟨outer, root⟩ (around _ content).close) else none) = _
      rw [hclose]
      cases outer <;> rfl

/-- Text is joined to what stands behind the place, or to nothing. -/
theorem addText_around (hinner : s.inner = []) (settled : s.Settled) (text : String) :
    (s.around content).addText text = (s.addText text).around content := by
  obtain ⟨inner, frame, behind, layers, before, outer, root⟩ := s
  cases hinner
  cases behind with
  | cons x rest => cases x <;> rfl
  | nil =>
      cases layers with
      | cons l layers => rfl
      | nil =>
          rcases settled with h | h | h
          all_goals exact absurd rfl h

theorem take_text (settled : s.Settled) (written : List Char) :
    (s.builder content).take (.text written)
      = (contentText? written).map fun cs =>
          (s.addText (String.ofList cs)).builder content := by
  have hjoin := s.addText_around content
  obtain ⟨inner, frame, behind, layers, before, outer, root⟩ := s
  cases inner with
  | cons f rest => rfl
  | nil =>
      show ((contentText? written).map fun cs =>
        Builder.mk ((around _ content).addText (String.ofList cs) :: outer) root) = _
      simp only [hjoin rfl settled]
      rfl

theorem take_data (settled : s.Settled) (written : List Char) :
    (s.builder content).take (.data written)
      = some ((s.addText (String.ofList (uniformLines written))).builder content) := by
  have hjoin := s.addText_around content
  obtain ⟨inner, frame, behind, layers, before, outer, root⟩ := s
  cases inner with
  | cons f rest => rfl
  | nil =>
      show some (Builder.mk ((around _ content).addText _ :: outer) root) = _
      rw [hjoin rfl settled]
      rfl

/-! ## Settled places -/

variable {s}

theorem settled_addChild (e : Node) : (s.addChild e).Settled := by
  rw [addChild]
  split
  · exact .inr (.inl (List.cons_ne_nil _ _))
  · exact .inl (List.cons_ne_nil _ _)

theorem settled_push (f : Frame) : (s.push f).Settled :=
  .inl (List.cons_ne_nil _ _)

theorem settled_addText (text : String) : (s.addText text).Settled := by
  rw [addText]
  split
  next hinner =>
    refine .inr (.inl ?_)
    dsimp only
    rw [Frame.addText.eq_def]
    split <;> exact List.cons_ne_nil _ _
  · exact .inl (List.cons_ne_nil _ _)

theorem settled_pop : s.pop.Settled := by
  rw [pop]
  split
  · exact settled_addChild _
  · split
    · trivial
    · exact .inr (.inr (List.cons_ne_nil _ _))

end Site

/-! ## Reading around a place -/

/-- Outside the root there are only spaces, comments and instructions. -/
theorem take_closed {root : Node} {t : Token} {b : Builder}
    (h : (⟨[], some root⟩ : Builder).take t = some b) (other : Node) :
    (⟨[], some other⟩ : Builder).take t = some ⟨[], some other⟩ := by
  cases t with
  | opening => cases h
  | closing => cases h
  | comment => rfl
  | instruction => rfl
  | data => cases h
  | text written =>
      change (if written.all isSpace then _ else _) = _ at h
      show (if written.all isSpace then _ else _) = _
      split at h
      next hspace => rw [if_pos hspace]
      · cases h

/-- A token that is no text does not look at the place. -/
theorem Site.take_of_other {s : Site} {t : Token} (htext : ∀ written, t ≠ .text written)
    (hdata : ∀ written, t ≠ .data written) {content : List Node} {b : Builder}
    (h : (s.builder content).take t = some b) :
    ∃ s' : Stage, s'.Settled ∧ ∀ other, (s.builder other).take t = some (s'.builder other) := by
  cases t with
  | text written => exact absurd rfl (htext written)
  | data written => exact absurd rfl (hdata written)
  | comment =>
      exact ⟨.open (s.addChild .comment), Site.settled_addChild _,
        fun other => congrArg some (s.addAside_builder other _)⟩
  | instruction =>
      exact ⟨.open (s.addChild .instruction), Site.settled_addChild _,
        fun other => congrArg some (s.addAside_builder other _)⟩
  | opening name written closed =>
      rw [s.take_opening] at h
      obtain ⟨f, hf, -⟩ := Option.map_eq_some_iff.mp h
      refine ⟨.open (if closed then s.addChild f.close else s.push f), ?_, ?_⟩
      · cases closed
        · exact Site.settled_push f
        · exact Site.settled_addChild _
      · intro other
        rw [s.take_opening, hf]
        rfl
  | closing name =>
      rw [s.take_closing] at h
      split at h
      next hname =>
        refine ⟨s.pop, Site.settled_pop, ?_⟩
        intro other
        rw [s.take_closing, if_pos hname]
      · cases h

/-- **NO TOKEN LOOKS AT A SETTLED PLACE**: if it can be taken with one thing there, it
    can be taken with any other, to the same effect. -/
theorem Stage.take_settled {s : Stage} (settled : s.Settled) {t : Token} {content : List Node}
    {b : Builder} (h : (s.builder content).take t = some b) :
    ∃ s' : Stage, s'.Settled ∧ ∀ other, (s.builder other).take t = some (s'.builder other) := by
  cases s with
  | closed root layers => exact ⟨.closed root layers, trivial, fun other => take_closed h _⟩
  | «open» s =>
      cases t with
      | text written =>
          have hread := fun content => s.take_text content settled written
          rw [show (Stage.open s).builder content = s.builder content from rfl, hread] at h
          obtain ⟨cs, hcs, -⟩ := Option.map_eq_some_iff.mp h
          refine ⟨.open (s.addText (String.ofList cs)), Site.settled_addText _, ?_⟩
          intro other
          refine (hread other).trans ?_
          rw [hcs]
          rfl
      | data written =>
          exact ⟨.open _, Site.settled_addText _,
            fun other => s.take_data other settled written⟩
      | _ => exact Site.take_of_other (by simp) (by simp) h

theorem takeAll_append (b : Builder) (ts us : List Token) :
    b.takeAll (ts ++ us) = (b.takeAll ts).bind (·.takeAll us) := by
  induction ts generalizing b with
  | nil => rfl
  | cons t ts ih =>
      rw [List.cons_append, Builder.takeAll, Builder.takeAll, Option.bind_assoc]
      congr 1
      funext c
      exact ih c

/-- A run of tokens does not look at it either. -/
theorem Stage.takeAll_settled {ts : List Token} : ∀ {s : Stage}, s.Settled →
    ∀ {content : List Node} {b : Builder}, (s.builder content).takeAll ts = some b →
    ∃ s' : Stage, ∀ other, (s.builder other).takeAll ts = some (s'.builder other) := by
  induction ts with
  | nil =>
      intro s _ content b h
      exact ⟨s, fun other => rfl⟩
  | cons t ts ih =>
      intro s settled content b h
      obtain ⟨c, hc, h⟩ := Option.bind_eq_some_iff.mp h
      obtain ⟨s', settled', hs'⟩ := s.take_settled settled hc
      rw [hs' content] at hc
      cases hc
      obtain ⟨s'', hs''⟩ := ih settled' h
      refine ⟨s'', ?_⟩
      intro other
      rw [Builder.takeAll, hs', Option.bind_some, hs'']

/-- Whether a token is text or character data. -/
def Token.isText : Token → Bool
  | .text _ => true
  | .data _ => true
  | _ => false

/-- **A DOCUMENT IS READ AROUND A PLACE.**  What is read behind the place, if it does not
    begin with text, makes one tree around whatever stands there. -/
theorem Site.takeAll_around {s : Site} {ts : List Token}
    (first : ∀ t ∈ ts.head?, t.isText = false) {content : List Node} {root : Option Node}
    (h : (s.builder content).takeAll ts = some ⟨[], root⟩) :
    ∃ l layers, ∀ other, (s.builder other).takeAll ts
      = some ⟨[], some (Layer.wrap l (Layer.fill layers other))⟩ := by
  have open_ne : ∀ (s : Site) (content : List Node), s.builder content ≠ ⟨[], root⟩ := by
    intro s content e
    have hframes := congrArg Builder.frames e
    simp [builder] at hframes
  cases ts with
  | nil => exact absurd (Option.some.inj h) (open_ne s content)
  | cons t ts =>
      have other : t.isText = false := first t rfl
      obtain ⟨b, hb, h⟩ := Option.bind_eq_some_iff.mp h
      obtain ⟨s', settled, hs'⟩ := s.take_of_other (by rintro _ rfl; cases other)
        (by rintro _ rfl; cases other) hb
      rw [hs' content] at hb
      cases hb
      obtain ⟨s'', hs''⟩ := s'.takeAll_settled settled h
      rw [hs'' content] at h
      cases s'' with
      | «open» s'' => exact absurd (Option.some.inj h) (open_ne s'' content)
      | closed l layers =>
          refine ⟨l, layers, ?_⟩
          intro other
          rw [Builder.takeAll, hs', Option.bind_some, hs'']
          rfl

end ReceiptPrinter.Xml
