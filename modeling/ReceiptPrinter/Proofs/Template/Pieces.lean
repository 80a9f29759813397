import Mathlib.Data.List.Chain
import Mathlib.Data.List.DropRight
import ReceiptPrinter.Template.Substitution

/-! # Pieces — the grammar of templates

    A template is read from left to right: what stands in front of a mark is text,
    what stands between a mark and the next closing brace is the body of a token,
    and a mark that no closing brace follows leaves the rest as it is.

    Here templates are given the other way round, by their pieces (`Template`), and
    each piece has a text of its own.  Marks may overlap with what is around them:
    a dollar sign may stand in front of one, and another one inside of a body.  The
    pieces fix how that is to be read, and every text is the source of some pieces.
    Filling in is done piece by piece (`Context.substitute_source`), so what one
    token leaves behind is never taken for a part of another one. -/

namespace ReceiptPrinter

/-! ## Pieces -/

/-- A piece of a template: text, a token with its body, or a token without one. -/
inductive Piece where
  | literal (cs : List Char)
  | token (body : List Char)
  | hollow

namespace Piece

/-- What a token begins with. -/
def mark : List Char := ['$', '\x7b']

/-- How a piece is written. -/
def source : Piece → List Char
  | .literal cs => cs
  | .token body => mark ++ body ++ ['\x7d']
  | .hollow => mark ++ ['\x7d']

/-- Whether a piece is what it says: no token begins in a text, and the first
    closing brace of a token is the one at its end. -/
def Sound : Piece → Prop
  | .literal cs => ¬ mark <:+: cs
  | .token body => body ≠ [] ∧ '\x7d' ∉ body
  | .hollow => True

/-- Whether a piece is a text. -/
def isLiteral : Piece → Bool
  | .literal _ => true
  | _ => false

/-- The path in the body of a token: what stands in front of the first colon. -/
def path (body : List Char) : String :=
  String.ofList (Text.trimChars (body.takeWhile (· != ':')))

/-- The format in the body of a token: what stands behind the first colon, if there
    is one. -/
def format? (body : List Char) : Option String :=
  match body.dropWhile (· != ':') with
  | [] => none
  | _ :: format => some (String.ofList (Text.trimChars format))

/-- The text that a piece leaves behind. -/
def filled {o : Type} [Members o] (c : Context o) : Piece → List Char
  | .literal cs => cs
  | .token body =>
    match c.get? (path body), format? body with
    | none, _ => []
    | some v, none => v.render.toList
    | some v, some format => (v.renderWith format).toList
  | .hollow => mark ++ ['\x7d']

end Piece

/-- The pieces of a template, and a rest that begins with a mark and has no closing
    brace.  No two texts are next to each other. -/
structure Template where
  pieces : List Piece
  rest : List Char
  sound : ∀ p ∈ pieces, p.Sound
  apart : pieces.IsChain fun p q => p.isLiteral = true → q.isLiteral = false
  unclosed : rest = [] ∨ Piece.mark <+: rest ∧ '\x7d' ∉ rest

namespace Template

/-- How a template is written. -/
def source (t : Template) : String :=
  String.ofList (t.pieces.flatMap Piece.source ++ t.rest)

/-- A template with its pieces filled in. -/
def filled {o : Type} [Members o] (c : Context o) (t : Template) : String :=
  String.ofList (t.pieces.flatMap (Piece.filled c) ++ t.rest)

end Template

/-! ## Blanks and colons -/

namespace Text

/-- What is dropped stops at the first character that is kept. -/
theorem dropWhile_append_cons {p : Char → Bool} {a : Char} (ha : p a = false)
    (xs ys : List Char) : (xs ++ a :: ys).dropWhile p = xs.dropWhile p ++ a :: ys := by
  rw [List.dropWhile_append]
  split
  next h =>
    rw [List.isEmpty_iff.mp h, List.dropWhile_cons_of_neg (by rw [ha]; exact Bool.false_ne_true),
      List.nil_append]
  next => rfl

theorem dropBlankEnd_append_cons {a : Char} (ha : isBlank a = false) (xs ys : List Char) :
    dropBlankEnd (xs ++ a :: ys) = xs ++ a :: dropBlankEnd ys := by
  rw [dropBlankEnd, List.reverse_append, List.reverse_cons, List.append_assoc,
    List.singleton_append, dropWhile_append_cons ha, List.reverse_append, List.reverse_cons,
    List.reverse_reverse, List.append_assoc, List.singleton_append, dropBlankEnd]

/-- Blanks may be dropped at the end of a text before it is trimmed. -/
theorem trimChars_dropBlankEnd (cs : List Char) : trimChars (dropBlankEnd cs) = trimChars cs := by
  have whole := List.takeWhile_append_dropWhile (p := isBlank) (l := cs)
  have kept := List.head?_dropWhile_not isBlank cs
  have dropped : (cs.takeWhile isBlank).dropWhile isBlank = [] :=
    List.dropWhile_eq_nil_iff.mpr fun c hc => List.mem_takeWhile_imp hc
  cases h : cs.dropWhile isBlank with
  | nil =>
      have empty : dropBlankEnd cs = [] := by
        rw [dropBlankEnd, List.dropWhile_eq_nil_iff.mpr]
        · rfl
        · exact fun c hc => List.dropWhile_eq_nil_iff.mp h c (List.mem_reverse.mp hc)
      rw [empty, trimChars, trimChars, h]
      rfl
  | cons a ys =>
      rw [h] at whole kept
      have inner : dropBlankEnd cs = cs.takeWhile isBlank ++ a :: dropBlankEnd ys := by
        rw [← dropBlankEnd_append_cons kept, whole]
      rw [inner, trimChars, trimChars, dropWhile_append_cons kept, dropped, h]
      have twice : dropBlankEnd (dropBlankEnd ys) = dropBlankEnd ys :=
        List.rdropWhile_idempotent isBlank ys
      have first : ∀ ys, dropBlankEnd (a :: ys) = a :: dropBlankEnd ys :=
        dropBlankEnd_append_cons kept []
      rw [List.nil_append, first, twice, first]

theorem mem_of_mem_trimChars {c : Char} {cs : List Char} (h : c ∈ trimChars cs) : c ∈ cs :=
  (List.dropWhile_sublist isBlank).subset ((List.rdropWhile_prefix isBlank _).subset h)

theorem splitFirst?_append {sep : Char} {before : List Char} (h : sep ∉ before)
    (after : List Char) : splitFirst? sep (before ++ sep :: after) = some (before, after) := by
  induction before with
  | nil => exact if_pos rfl
  | cons c rest ih =>
      rw [List.mem_cons, not_or] at h
      rw [List.cons_append, splitFirst?, if_neg (Ne.symm h.1), ih h.2]
      rfl

theorem splitFirst?_eq_none_iff {sep : Char} {cs : List Char} :
    splitFirst? sep cs = none ↔ sep ∉ cs := by
  constructor
  · intro h inside
    obtain ⟨before, after, rfl, hbefore⟩ := List.eq_append_cons_of_mem inside
    rw [splitFirst?_append hbefore] at h
    cases h
  · intro h
    induction cs with
    | nil => rfl
    | cons c rest ih =>
        rw [List.mem_cons, not_or] at h
        rw [splitFirst?, if_neg (Ne.symm h.1), ih h.2]
        rfl

end Text

/-! ## Tokens -/

namespace Context

open Piece (mark)

variable {o : Type} [Members o] (c : Context o)

/-- A token leaves behind what its path and its format say. -/
theorem renderToken_eq (body : List Char) :
    (c.renderToken body).toList = Piece.filled c (.token body) := by
  have whole := List.takeWhile_append_dropWhile (p := (· != ':')) (l := body)
  have kept := List.head?_dropWhile_not (· != ':') body
  have front : ':' ∉ body.takeWhile (· != ':') := by
    intro h
    have := List.mem_takeWhile_imp h
    exact absurd this (by decide)
  rw [renderToken, Piece.filled, Piece.path, Piece.format?]
  cases h : body.dropWhile (· != ':') with
  | nil =>
      rw [h, List.append_nil] at whole
      rw [whole] at front ⊢
      rw [Text.splitFirst?_eq_none_iff.mpr (mt Text.mem_of_mem_trimChars front)]
      dsimp only
      cases c.get? (String.ofList (Text.trimChars body)) with
      | none => rfl
      | some v => rfl
  | cons colon format =>
      rw [h] at whole kept
      obtain rfl : colon = ':' := by simpa using kept
      have token : Text.trimChars body
          = (body.takeWhile (· != ':')).dropWhile Text.isBlank
            ++ ':' :: Text.dropBlankEnd format := by
        have blank : Text.isBlank ':' = false := by decide
        rw [← Text.dropBlankEnd_append_cons blank, ← Text.dropWhile_append_cons blank, whole,
          Text.trimChars]
      have plain : ':' ∉ (body.takeWhile (· != ':')).dropWhile Text.isBlank :=
        fun h => front ((List.dropWhile_sublist _).subset h)
      rw [token, Text.splitFirst?_append plain]
      dsimp only
      rw [Text.trimChars_dropBlankEnd]
      have path : Text.trimChars ((body.takeWhile (· != ':')).dropWhile Text.isBlank)
          = Text.trimChars (body.takeWhile (· != ':')) := by
        rw [Text.trimChars, List.dropWhile_idempotent, Text.trimChars]
      rw [path]
      cases c.get? (String.ofList (Text.trimChars (body.takeWhile (· != ':')))) with
      | none => rfl
      | some v => rfl

/-! ## Reading a template -/

/-- What begins no token is kept. -/
theorem substituteChars_cons {d : Char} {after : List Char} (h : ¬ mark <+: d :: after) :
    c.substituteChars (d :: after) = d :: c.substituteChars after := by
  rw [substituteChars]
  rintro rest rfl rfl
  exact h ⟨rest, rfl⟩

/-- A text is kept, unless its last character and the next one begin a token. -/
theorem substituteChars_literal {cs after : List Char} (h : ¬ mark <:+: cs)
    (next : after.head? ≠ some '\x7b') :
    c.substituteChars (cs ++ after) = cs ++ c.substituteChars after := by
  induction cs with
  | nil => rfl
  | cons d ds ih =>
      rw [List.infix_cons_iff, not_or] at h
      rw [List.cons_append, substituteChars_cons, ih h.2]
      · rfl
      · rintro ⟨rest, heq⟩
        rw [mark, List.cons_append, List.cons.injEq] at heq
        obtain ⟨rfl, heq⟩ := heq
        cases ds with
        | nil =>
            refine next ?_
            rw [← List.nil_append after, ← heq]
            rfl
        | cons e es =>
            obtain ⟨rfl, -⟩ := List.cons.inj heq
            exact h.1 ⟨es, rfl⟩

/-- What becomes of a mark depends on the next closing brace. -/
theorem substituteChars_mark (after : List Char) :
    c.substituteChars (mark ++ after)
      = match Text.splitFirst? '\x7d' after with
        | some (first :: body, rest) =>
          (c.renderToken (first :: body)).toList ++ c.substituteChars rest
        | some ([], _) => mark ++ c.substituteChars after
        | none => mark ++ after := by
  have source : mark ++ after = '$' :: '\x7b' :: after := rfl
  rw [source, substituteChars]
  split
  next found =>
    dsimp only
    rw [found]
  next found =>
    rw [found]
    rfl
  next found => rw [found]

theorem substituteChars_token {body : List Char} (h : (Piece.token body).Sound)
    (after : List Char) :
    c.substituteChars ((Piece.token body).source ++ after)
      = (Piece.token body).filled c ++ c.substituteChars after := by
  obtain ⟨hne, closed⟩ := h
  obtain ⟨first, more, rfl⟩ := List.exists_cons_of_ne_nil hne
  rw [Piece.source, List.append_assoc, List.append_assoc, substituteChars_mark,
    List.singleton_append, Text.splitFirst?_append closed, ← renderToken_eq]

/-- A token without a body is kept. -/
theorem substituteChars_hollow (after : List Char) :
    c.substituteChars (Piece.hollow.source ++ after)
      = Piece.hollow.filled c ++ c.substituteChars after := by
  have found := Text.splitFirst?_append (List.not_mem_nil (a := '\x7d')) after
  rw [List.nil_append] at found
  have brace : ¬ mark <+: '\x7d' :: after := by
    rintro ⟨rest, heq⟩
    exact absurd (List.cons.inj heq).1 (by decide)
  rw [Piece.source, List.append_assoc, List.singleton_append, substituteChars_mark, found]
  dsimp only
  rw [substituteChars_cons c brace, Piece.filled, List.append_assoc, List.singleton_append]

/-- What no closing brace follows is kept. -/
theorem substituteChars_unclosed {rest : List Char} (begins : mark <+: rest)
    (h : '\x7d' ∉ rest) : c.substituteChars rest = rest := by
  obtain ⟨after, rfl⟩ := begins
  have found : Text.splitFirst? '\x7d' after = none :=
    Text.splitFirst?_eq_none_iff.mpr fun inside => h (List.mem_append_right _ inside)
  rw [substituteChars_mark, found]

/-- Pieces that are apart are filled in one after the other. -/
theorem substituteChars_pieces {pieces : List Piece} {rest : List Char}
    (sound : ∀ p ∈ pieces, p.Sound)
    (apart : pieces.IsChain fun p q => p.isLiteral = true → q.isLiteral = false)
    (unclosed : rest = [] ∨ mark <+: rest ∧ '\x7d' ∉ rest) :
    c.substituteChars (pieces.flatMap Piece.source ++ rest)
      = pieces.flatMap (Piece.filled c) ++ rest := by
  induction pieces with
  | nil =>
      rw [List.flatMap_nil, List.flatMap_nil, List.nil_append]
      rcases unclosed with rfl | ⟨begins, h⟩
      · exact substituteChars.eq_1 c
      · exact substituteChars_unclosed c begins h
  | cons p more ih =>
      rw [List.forall_mem_cons] at sound
      have further := ih sound.2 apart.tail
      rw [List.flatMap_cons, List.flatMap_cons, List.append_assoc, List.append_assoc, ← further]
      cases p with
      | literal cs =>
          refine substituteChars_literal c sound.1 ?_
          -- Behind a text stands a mark, if anything at all.
          cases more with
          | nil =>
              rcases unclosed with rfl | ⟨⟨after, rfl⟩, -⟩
              · intro h
                cases h
              · exact fun h => absurd (Option.some.inj h) (by decide)
          | cons q others =>
              cases q with
              | literal ds => cases (List.isChain_cons_cons.mp apart).1 rfl
              | token body => exact fun h => absurd (Option.some.inj h) (by decide)
              | hollow => exact fun h => absurd (Option.some.inj h) (by decide)
      | token body => exact substituteChars_token c sound.1 _
      | hollow => exact substituteChars_hollow c _

end Context

/-! ## Every text is a template -/

namespace Template

open Piece (mark)

/-- The characters of a template. -/
def chars (t : Template) : List Char :=
  t.pieces.flatMap Piece.source ++ t.rest

/-- A template with one more piece in front. -/
def cons (p : Piece) (sound : p.Sound) (t : Template)
    (apart : ∀ q ∈ t.pieces.head?, p.isLiteral = true → q.isLiteral = false) : Template where
  pieces := p :: t.pieces
  rest := t.rest
  sound := List.forall_mem_cons.mpr ⟨sound, t.sound⟩
  apart := t.apart.cons apart
  unclosed := t.unclosed

theorem chars_cons {p : Piece} (sound : p.Sound) {t : Template}
    (apart : ∀ q ∈ t.pieces.head?, p.isLiteral = true → q.isLiteral = false) :
    (cons p sound t apart).chars = p.source ++ t.chars := by
  rw [chars, cons, List.flatMap_cons, List.append_assoc]
  rfl

/-- Any character can stand in front of a template where it begins no token. -/
theorem exists_chars_cons {d : Char} (t : Template) (h : ¬ mark <+: d :: t.chars) :
    ∃ u : Template, u.chars = d :: t.chars := by
  have single : (Piece.literal [d]).Sound := fun inside =>
    absurd inside.length_le (by decide : ¬ mark.length ≤ 1)
  obtain ⟨pieces, rest, sound, apart, unclosed⟩ := t
  cases pieces with
  | nil => exact ⟨cons (.literal [d]) single ⟨[], rest, sound, apart, unclosed⟩ nofun, rfl⟩
  | cons p more =>
      cases hp : p.isLiteral with
      | false =>
          refine ⟨cons (.literal [d]) single ⟨p :: more, rest, sound, apart, unclosed⟩ ?_, rfl⟩
          intro q hq _
          obtain rfl := Option.some.inj hq
          exact hp
      | true =>
          cases p with
          | token body => cases hp
          | hollow => cases hp
          -- Texts are never next to each other, so the character joins the one there is.
          | literal ds =>
              rw [List.forall_mem_cons] at sound
              have joined : (Piece.literal (d :: ds)).Sound := by
                intro inside
                rcases List.infix_cons_iff.mp inside with begins | later
                · refine h (begins.trans ?_)
                  rw [chars, List.flatMap_cons, List.append_assoc]
                  exact List.prefix_append (d :: ds) _
                · exact sound.1 later
              refine ⟨cons (.literal (d :: ds)) joined ⟨more, rest, sound.2, apart.tail, unclosed⟩
                fun q hq _ => ?_, rfl⟩
              cases more with
              | nil => cases hq
              | cons other others =>
                  obtain rfl := Option.some.inj hq
                  exact (List.isChain_cons_cons.mp apart).1 rfl

theorem exists_chars (cs : List Char) : ∃ t : Template, t.chars = cs := by
  induction hlength : cs.length using Nat.strongRecOn generalizing cs with
  | ind n ih =>
      by_cases begins : mark <+: cs
      · obtain ⟨after, rfl⟩ := begins
        cases found : Text.splitFirst? '\x7d' after with
        | none =>
            refine ⟨⟨[], mark ++ after, nofun, .nil, .inr ⟨List.prefix_append _ _, ?_⟩⟩, rfl⟩
            intro inside
            rcases List.mem_append.mp inside with inside | inside
            · exact absurd inside (by decide)
            · exact Text.splitFirst?_eq_none_iff.mp found inside
        | some parts =>
            obtain ⟨body, rest⟩ := parts
            obtain ⟨rfl, closed⟩ := Text.splitFirst?_eq_some found
            obtain ⟨t, rfl⟩ := ih rest.length
              (by rw [← hlength, List.length_append, List.length_append, List.length_cons]; omega)
              rest rfl
            cases body with
            | nil =>
                have sound : Piece.hollow.Sound := trivial
                exact ⟨cons _ sound t fun _ _ => nofun, chars_cons sound _⟩
            | cons first more =>
                have sound : (Piece.token (first :: more)).Sound := ⟨List.cons_ne_nil _ _, closed⟩
                refine ⟨cons _ sound t fun _ _ => nofun, (chars_cons sound _).trans ?_⟩
                rw [Piece.source, List.append_assoc, List.append_assoc, List.singleton_append]
      · cases cs with
        | nil => exact ⟨⟨[], [], nofun, .nil, .inl rfl⟩, rfl⟩
        | cons d more =>
            obtain ⟨t, rfl⟩ := ih more.length (by rw [← hlength, List.length_cons]; omega) more rfl
            exact exists_chars_cons t begins

end Template

/-- **A TEMPLATE IS FILLED IN PIECE BY PIECE**, and every text is a template.  What a
    token leaves behind is as its path and its format say, whatever it looks
    like. -/
theorem substitute_source {o : Type} [Members o] (c : Context o) :
    (∀ t : Template, c.substitute t.source = t.filled c)
      ∧ ∀ s : String, ∃ t : Template, t.source = s := by
  constructor
  · intro t
    rw [Context.substitute, Template.source, String.toList_ofList,
      Context.substituteChars_pieces c t.sound t.apart t.unclosed]
    rfl
  · intro s
    obtain ⟨t, ht⟩ := Template.exists_chars s.toList
    refine ⟨t, (congrArg String.ofList ht).trans ?_⟩
    rw [String.ofList_toList]

/-- A value that looks like a token is left as it is. -/
example :
    ((Context.empty : Context).bind "A" (.text "$\x7bA\x7d!")).substitute "$$\x7b a \x7d$\x7b"
      = "$$\x7bA\x7d!$\x7b" := by
  cbv

end ReceiptPrinter
