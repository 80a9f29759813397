import ReceiptPrinter.Xml.Token

/-! # Readers — markup that ends itself

    A reader takes a value off the front of a text.  Where it stops is settled by
    what it has read, so the same value is read in front of any other text: the
    reader `Closes`.  A name has no end of its own, and a reader of names looks at
    the one character behind it, and at no more: it only `Stops`.

    Every kind of markup closes (`closes_readMarkup`).  So a document may be cut
    behind any tag, comment, instruction or section of data, and what stands
    before the cut is read as it was. -/

namespace ReceiptPrinter.Xml

variable {α : Type}

/-- What the reader takes does not depend on what stands behind it. -/
def Closes (read : List Char → Option (α × List Char)) : Prop :=
  ∀ {cs rest : List Char} {v : α}, read cs = some (v, rest) →
    ∃ used, cs = used ++ rest ∧ ∀ x, read (used ++ x) = some (v, x)

/-- What the reader takes depends only on the first character behind it. -/
def Stops (read : List Char → Option (α × List Char)) : Prop :=
  ∀ {cs rest : List Char} {v : α}, read cs = some (v, rest) →
    ∃ used, cs = used ++ rest ∧ ∀ x, x.head? = rest.head? → read (used ++ x) = some (v, x)

/-! ## Beginnings -/

/-- A word that cannot reach beyond some characters is looked for in them only. -/
theorem isPrefixOf_append {word used : List Char} (h : ∀ z, word <+: used ++ z → word <+: used)
    (x y : List Char) : word.isPrefixOf (used ++ x) = word.isPrefixOf (used ++ y) := by
  have shorter : ∀ z, word <+: used ++ z ↔ word <+: used := by
    intro z
    exact ⟨h z, fun hz => hz.trans (List.prefix_append used z)⟩
  rw [Bool.eq_iff_iff, List.isPrefixOf_iff_prefix, List.isPrefixOf_iff_prefix, shorter, shorter]

/-- So it is if one of them does not occur in the word. -/
theorem isPrefixOf_append_of_mem {word used : List Char} {c : Char} (hc : c ∈ used)
    (hword : c ∉ word) (x y : List Char) :
    word.isPrefixOf (used ++ x) = word.isPrefixOf (used ++ y) := by
  refine isPrefixOf_append ?_ x y
  intro z hz
  rcases List.prefix_or_prefix_of_prefix hz (List.prefix_append used z) with h | h
  · exact h
  · exact absurd (h.subset hc) hword

/-- So it is if the word is no longer than they are. -/
theorem isPrefixOf_append_of_length {word used : List Char} (h : word.length ≤ used.length)
    (x y : List Char) : word.isPrefixOf (used ++ x) = word.isPrefixOf (used ++ y) := by
  refine isPrefixOf_append ?_ x y
  intro z hz
  exact List.prefix_of_prefix_length_le hz (List.prefix_append used z) h

/-- The first character that is left is of another kind than those taken. -/
theorem not_of_mem_head?_dropWhile {p : α → Bool} {xs : List α} {x : α}
    (h : x ∈ (xs.dropWhile p).head?) : p x = false := by
  have hhead := List.head?_dropWhile_not p xs
  rw [Option.mem_def.mp h] at hhead
  simpa using hhead

/-- Characters of a kind are taken up to the first that is not of it. -/
theorem takeWhile_of_head? (p : Char → Bool) (cs : List Char) {x : List Char}
    (h : x.head? = (cs.dropWhile p).head?) :
    (cs.takeWhile p ++ x).takeWhile p = cs.takeWhile p
      ∧ (cs.takeWhile p ++ x).dropWhile p = x := by
  have all : ∀ c ∈ cs.takeWhile p, p c = true := by
    intro c hc
    exact List.all_eq_true.mp List.all_takeWhile c hc
  rw [List.takeWhile_append_of_pos all, List.dropWhile_append_of_pos all]
  cases x with
  | nil => simp
  | cons c x =>
      have hc : p c = false := not_of_mem_head?_dropWhile h.symm
      simp [hc]

theorem skipSpaces_of_head? (cs : List Char) : ∃ front, cs = front ++ skipSpaces cs
    ∧ ∀ x, x.head? = (skipSpaces cs).head? → skipSpaces (front ++ x) = x := by
  refine ⟨cs.takeWhile isSpace, List.takeWhile_append_dropWhile.symm, ?_⟩
  intro x h
  exact (takeWhile_of_head? isSpace cs h).2

/-! ## Names and values -/

theorem takeName_append (cs : List Char) : (takeName cs).1 ++ (takeName cs).2 = cs :=
  List.takeWhile_append_dropWhile

theorem takeName_of_head? (cs : List Char) {x : List Char} (h : x.head? = (takeName cs).2.head?) :
    takeName ((takeName cs).1 ++ x) = ((takeName cs).1, x) := by
  obtain ⟨hfront, hback⟩ := takeWhile_of_head? _ cs h
  exact Prod.ext hfront hback

theorem stops_readQName : Stops readQName := by
  intro cs rest v h
  obtain ⟨q, hq, he⟩ := Option.map_eq_some_iff.mp h
  cases he
  refine ⟨(takeName cs).1, List.takeWhile_append_dropWhile.symm, ?_⟩
  intro x hx
  rw [readQName, takeName_of_head? cs hx, hq]
  rfl

theorem closes_splitFirst? (sep : Char) : Closes (Text.splitFirst? sep) := by
  intro cs rest v h
  refine ⟨v ++ [sep], ?_, ?_⟩
  · rw [List.append_assoc]
    exact (Text.splitFirst?_eq_some h).1
  · intro x
    have hnot := (Text.splitFirst?_eq_some h).2
    clear h
    induction v with
    | nil => simp [Text.splitFirst?]
    | cons c v ih =>
        rw [List.mem_cons, not_or] at hnot
        rw [List.cons_append, List.cons_append, Text.splitFirst?, if_neg (Ne.symm hnot.1),
          ih hnot.2]
        rfl

theorem closes_readQuoted : Closes readQuoted := by
  intro cs rest v h
  cases cs with
  | nil => cases h
  | cons quote cs =>
      rw [readQuoted] at h
      split at h
      next hquote =>
        obtain ⟨⟨written, after⟩, hs, he⟩ := Option.bind_eq_some_iff.mp h
        dsimp only at he
        split at he
        · cases he
        next hlt =>
          cases he
          obtain ⟨used, rfl, hx⟩ := closes_splitFirst? quote hs
          refine ⟨quote :: used, rfl, ?_⟩
          intro x
          rw [List.cons_append, readQuoted, if_pos hquote, hx, Option.bind_some]
          exact if_neg hlt
      · cases h

theorem closes_readAttribute : Closes readAttribute := by
  intro cs rest v h
  rw [readAttribute] at h
  split at h
  · cases h
  next name tail hname =>
    split at h
    next more hmore =>
      obtain ⟨⟨written, after⟩, hq, he⟩ := Option.map_eq_some_iff.mp h
      cases he
      obtain ⟨one, rfl, hone⟩ := stops_readQName hname
      obtain ⟨two, htwo, hskip⟩ := skipSpaces_of_head? tail
      obtain ⟨three, hthree, hskip'⟩ := skipSpaces_of_head? more
      obtain ⟨four, hfour, hquoted⟩ := closes_readQuoted hq
      rw [hmore] at htwo hskip
      rw [hfour] at hthree hskip'
      subst htwo
      subst hthree
      refine ⟨one ++ (two ++ '=' :: (three ++ four)), by simp, ?_⟩
      intro x
      have hname' := hone (two ++ '=' :: (three ++ (four ++ x))) (by simp [List.head?_append])
      have htail := hskip ('=' :: (three ++ (four ++ x))) rfl
      have hvalue : skipSpaces (three ++ (four ++ x)) = four ++ x := by
        refine hskip' (four ++ x) ?_
        -- A value begins with its quote.
        cases four with
        | nil =>
            have hnone := hquoted []
            cases hnone
        | cons quote four => rfl
      have hinput : (one ++ (two ++ '=' :: (three ++ four))) ++ x
          = one ++ (two ++ '=' :: (three ++ (four ++ x))) := by simp
      rw [hinput, readAttribute, hname']
      dsimp only
      rw [htail]
      show (readQuoted (skipSpaces (three ++ (four ++ x)))).map _ = _
      rw [hvalue, hquoted]
      rfl
    · cases h

/-! ## Tags -/

section

variable {name : QName} {read : List (QName × List Char)} {cs rest : List Char}

theorem readAttributes_closed (h : skipSpaces cs = '/' :: '>' :: rest) :
    readAttributes name read cs = some (.opening name read.reverse true, rest) := by
  rw [readAttributes.eq_def]
  split
  next tail hs =>
    rw [h] at hs
    cases hs
    rfl
  next tail hs =>
    rw [h] at hs
    cases hs
  next closed _ => exact absurd h (closed rest)

theorem readAttributes_nil : readAttributes name read [] = none := by
  rw [readAttributes.eq_def]
  rfl

theorem readAttributes_open (h : skipSpaces cs = '>' :: rest) :
    readAttributes name read cs = some (.opening name read.reverse false, rest) := by
  rw [readAttributes.eq_def]
  split
  next tail hs =>
    rw [h] at hs
    cases hs
  next tail hs =>
    rw [h] at hs
    cases hs
    rfl
  next _ ended => exact absurd h (ended rest)

theorem readAttributes_more {entry : QName × List Char} (hspace : startsSpace cs = true)
    (h : readAttribute (skipSpaces cs) = some (entry, rest)) :
    readAttributes name read cs = readAttributes name (entry :: read) rest := by
  rw [readAttributes.eq_def]
  split
  next tail hs =>
    rw [hs] at h
    cases h
  next tail hs =>
    rw [hs] at h
    cases h
  next =>
    rw [if_pos hspace]
    split
    next entry' rest' h' =>
      rw [h] at h'
      cases h'
      rfl
    next h' =>
      rw [h] at h'
      cases h'

end

theorem startsSpace_of_head? {x y : List Char} (h : x.head? = y.head?) :
    startsSpace x = startsSpace y := by
  cases x with
  | nil =>
      cases y with
      | nil => rfl
      | cons d y => cases h
  | cons c x =>
      cases y with
      | nil => cases h
      | cons d y => rw [startsSpace, startsSpace, Option.some.inj h]

/-- What begins with something is found behind spaces, whatever ends it. -/
theorem head?_append_of_ne_nil {used : List Char} (h : used ≠ []) (x y : List Char) :
    (used ++ x).head? = (used ++ y).head? := by
  cases used with
  | nil => exact absurd rfl h
  | cons c used => rfl

theorem closes_readAttributes (name : QName) (read : List (QName × List Char)) :
    Closes (readAttributes name read) := by
  intro cs rest t h
  fun_induction readAttributes name read cs with
  | case1 read cs tail hs =>
      cases h
      obtain ⟨front, hcs, hskip⟩ := skipSpaces_of_head? cs
      rw [hs] at hcs hskip
      refine ⟨front ++ ['/', '>'], by simpa using hcs, ?_⟩
      intro x
      rw [List.append_assoc]
      exact readAttributes_closed (hskip ('/' :: '>' :: x) rfl)
  | case2 read cs tail hs =>
      cases h
      obtain ⟨front, hcs, hskip⟩ := skipSpaces_of_head? cs
      rw [hs] at hcs hskip
      refine ⟨front ++ ['>'], by simpa using hcs, ?_⟩
      intro x
      rw [List.append_assoc]
      exact readAttributes_open (hskip ('>' :: x) rfl)
  | case3 read cs hspace entry tail hentry _ _ _ _ ih =>
      obtain ⟨front, hcs, hskip⟩ := skipSpaces_of_head? cs
      obtain ⟨one, htail, hone⟩ := closes_readAttribute hentry
      obtain ⟨two, rfl, htwo⟩ := ih h
      have hne : one ≠ [] := by
        rintro rfl
        cases hone []
      have hne' : front ++ one ≠ [] := by simp [hne]
      rw [htail] at hcs hskip
      refine ⟨front ++ (one ++ two), by simpa using hcs, ?_⟩
      intro x
      have hinput : front ++ (one ++ two) ++ x = front ++ (one ++ (two ++ x)) := by simp
      have hvalue := hskip (one ++ (two ++ x)) (head?_append_of_ne_nil hne _ _)
      have hstart : startsSpace (front ++ (one ++ (two ++ x))) = true := by
        have h := startsSpace_of_head? (head?_append_of_ne_nil hne' (two ++ x) (two ++ rest))
        rw [List.append_assoc, List.append_assoc, ← hcs] at h
        rw [h, hspace]
      have hentry' : readAttribute (skipSpaces (front ++ (one ++ (two ++ x))))
          = some (entry, two ++ x) := by
        rw [hvalue]
        exact hone (two ++ x)
      rw [hinput, readAttributes_more hstart hentry']
      exact htwo x
  | case4 => cases h
  | case5 => cases h

theorem closes_readOpening : Closes readOpening := by
  intro cs rest t h
  rw [readOpening] at h
  split at h
  · cases h
  next name tail hname =>
    obtain ⟨one, rfl, hone⟩ := stops_readQName hname
    obtain ⟨two, rfl, htwo⟩ := closes_readAttributes name [] h
    have hne : two ≠ [] := by
      rintro rfl
      have hnone := htwo []
      rw [List.append_nil, readAttributes_nil] at hnone
      cases hnone
    refine ⟨one ++ two, by simp, ?_⟩
    intro x
    rw [List.append_assoc, readOpening, hone _ (head?_append_of_ne_nil hne _ _)]
    exact htwo x

theorem closes_readClosing : Closes readClosing := by
  intro cs rest t h
  rw [readClosing] at h
  split at h
  · cases h
  next name tail hname =>
    split at h
    next after hafter =>
      cases h
      obtain ⟨one, rfl, hone⟩ := stops_readQName hname
      obtain ⟨two, htwo, hskip⟩ := skipSpaces_of_head? tail
      rw [hafter] at htwo hskip
      subst htwo
      refine ⟨one ++ (two ++ ['>']), by simp, ?_⟩
      intro x
      have hinput : one ++ (two ++ ['>']) ++ x = one ++ (two ++ '>' :: x) := by simp
      rw [hinput, readClosing, hone _ (by simp [List.head?_append])]
      dsimp only
      rw [hskip ('>' :: x) rfl]
      rfl
    · cases h

/-! ## Marks -/

/-- A text is split behind the mark, whatever stands there. -/
theorem splitAtMark_closes {mark cs before rest : List Char} (hmark : mark ≠ [])
    (h : splitAtMark mark cs = some (before, rest)) : cs = before ++ mark ++ rest
      ∧ ∀ x, splitAtMark mark (before ++ mark ++ x) = some (before, x) := by
  induction cs generalizing before with
  | nil =>
      rw [splitAtMark, if_neg (by simpa using hmark)] at h
      cases h
  | cons c cs ih =>
      rw [splitAtMark] at h
      split at h
      next hprefix =>
        cases h
        obtain ⟨after, hafter⟩ := List.isPrefixOf_iff_prefix.mp hprefix
        rw [← hafter, List.drop_left]
        refine ⟨rfl, ?_⟩
        intro x
        rw [List.nil_append, splitAtMark.eq_def, if_pos (by simp), List.drop_left]
      next hprefix =>
        obtain ⟨⟨b, a⟩, hb, he⟩ := Option.map_eq_some_iff.mp h
        cases he
        obtain ⟨rfl, hx⟩ := ih hb
        refine ⟨by simp, ?_⟩
        intro x
        -- The mark is not longer than what stands in front of `x`.
        have hlength : mark.length ≤ (c :: (b ++ mark)).length := by
          simp only [List.length_cons, List.length_append]
          omega
        have hnone : ¬ mark.isPrefixOf (c :: (b ++ mark ++ x)) = true := by
          intro hp
          exact hprefix ((isPrefixOf_append_of_length hlength rest x).trans hp)
        rw [List.cons_append, List.cons_append, splitAtMark, if_neg hnone, hx]
        rfl

theorem hasMark_iff (mark cs : List Char) : hasMark mark cs = true ↔ mark <:+: cs := by
  rw [hasMark]
  induction cs with
  | nil =>
      rw [splitAtMark.eq_def, List.infix_nil, ← List.prefix_nil, ← List.isPrefixOf_iff_prefix]
      split
      next hprefix => exact ⟨fun _ => hprefix, fun _ => rfl⟩
      next hprefix =>
        constructor
        · intro h
          cases h
        · intro h
          exact absurd h hprefix
  | cons c cs ih =>
      rw [splitAtMark.eq_def, List.infix_cons_iff, ← List.isPrefixOf_iff_prefix, ← ih]
      split
      next hprefix => exact ⟨fun _ => .inl hprefix, fun _ => rfl⟩
      next hprefix =>
        rw [Option.isSome_map]
        exact ⟨.inr, fun h => h.resolve_left hprefix⟩

/-- What may stand in a comment. -/
def IsComment (body : List Char) : Prop :=
  body.all isAllowed = true ∧ ¬ ['-', '-'] <:+: body ∧ body.getLast? ≠ some '-'

/-- A comment ends at its mark. -/
theorem splitAtMark_comment {body : List Char} (hyphens : ¬ ['-', '-'] <:+: body)
    (last : body.getLast? ≠ some '-') (x : List Char) :
    splitAtMark ['-', '-', '>'] (body ++ '-' :: '-' :: '>' :: x) = some (body, x) := by
  induction body with
  | nil => rfl
  | cons c body ih =>
      rw [List.infix_cons_iff, not_or] at hyphens
      have hnone : ¬ ['-', '-', '>'].isPrefixOf (c :: (body ++ '-' :: '-' :: '>' :: x)) = true := by
        intro hp
        -- A hyphen here is the last one, or another one follows.
        cases body with
        | nil =>
            rw [List.isPrefixOf_iff_prefix, List.cons_prefix_cons] at hp
            exact last (congrArg some hp.1.symm)
        | cons d body =>
            rw [List.isPrefixOf_iff_prefix, List.cons_append, List.cons_prefix_cons,
              List.cons_prefix_cons] at hp
            refine hyphens.1 ?_
            rw [List.cons_prefix_cons, List.cons_prefix_cons]
            exact ⟨hp.1, hp.2.1, List.nil_prefix⟩
      have last' : body.getLast? ≠ some '-' := by
        cases body with
        | nil => simp
        | cons d body => simpa using last
      rw [List.cons_append, splitAtMark, if_neg hnone, ih hyphens.2 last']
      rfl

theorem readComment_append {body : List Char} (h : IsComment body) (x : List Char) :
    readComment (body ++ '-' :: '-' :: '>' :: x) = some (.comment, x) := by
  obtain ⟨-, hyphens, last⟩ := h
  rw [readComment, splitAtMark_comment hyphens last, Option.bind_some]
  have hmark : hasMark ['-', '-'] body = false := by
    rw [Bool.eq_false_iff, ne_eq, hasMark_iff]
    exact hyphens
  simp [hmark, last]

theorem closes_readComment : Closes readComment := by
  intro cs rest t h
  obtain ⟨⟨body, after⟩, hs, he⟩ := Option.bind_eq_some_iff.mp h
  dsimp only at he
  split at he
  · cases he
  next hbody =>
    cases he
    obtain ⟨hcs, hx⟩ := splitAtMark_closes (by simp) hs
    refine ⟨_, hcs, ?_⟩
    intro x
    rw [readComment, hx, Option.bind_some]
    exact if_neg hbody

theorem closes_readData : Closes readData := by
  intro cs rest t h
  obtain ⟨⟨written, after⟩, hs, he⟩ := Option.map_eq_some_iff.mp h
  cases he
  obtain ⟨hcs, hx⟩ := splitAtMark_closes (by simp) hs
  refine ⟨_, hcs, ?_⟩
  intro x
  rw [readData, hx]
  rfl

theorem closes_readInstruction : Closes readInstruction := by
  intro cs rest t h
  rw [readInstruction.eq_def] at h
  split at h
  · cases h
  next c tail =>
    split at h
    · cases h
    next hstart =>
      obtain ⟨⟨body, after⟩, hs, he⟩ := Option.map_eq_some_iff.mp h
      cases he
      obtain ⟨hback, hx⟩ := splitAtMark_closes (by simp) hs
      have hcs : c :: tail = (takeName (c :: tail)).1 ++ (body ++ ['?', '>']) ++ rest := by
        rw [List.append_assoc, ← hback, takeName_append]
      have hname : ∀ x, takeName ((takeName (c :: tail)).1 ++ (body ++ ['?', '>'] ++ x))
          = ((takeName (c :: tail)).1, body ++ ['?', '>'] ++ x) := by
        intro x
        refine takeName_of_head? _ ?_
        rw [hback]
        exact head?_append_of_ne_nil (by simp) _ _
      generalize (takeName (c :: tail)).1 = name at hcs hname
      refine ⟨name ++ (body ++ ['?', '>']), hcs, ?_⟩
      intro x
      -- What is read begins with the same character, and there is a `>` in it.
      cases hused : name ++ (body ++ ['?', '>']) with
      | nil => simp at hused
      | cons d used =>
          rw [hused, List.cons_append] at hcs
          obtain ⟨rfl, rfl⟩ := List.cons.inj hcs
          have hname := hname x
          rw [← List.append_assoc, hused] at hname
          have hmem : '>' ∈ c :: used := by
            rw [← hused]
            simp
          rw [← List.cons_append, isPrefixOf_append_of_mem hmem (by decide) rest x] at hstart
          rw [List.cons_append] at hstart hname ⊢
          rw [readInstruction, if_neg hstart, hname, hx]
          rfl

theorem readQName_of_other {c : Char} (h : (isNameChar c || c == ':') = false) (cs : List Char) :
    readQName (c :: cs) = none := by
  rw [readQName, takeName, List.takeWhile_cons, h]
  rfl

/-- Only a name opens an element. -/
theorem readMarkup_of_readOpening {cs : List Char} {r : Token × List Char}
    (h : readOpening cs = some r) : readMarkup cs = some r := by
  have other : ∀ {c : Char} {rest : List Char}, (isNameChar c || c == ':') = false →
      readOpening (c :: rest) ≠ some r := by
    intro c rest hc hr
    rw [readOpening, readQName_of_other hc] at hr
    cases hr
  rw [readMarkup.eq_def]
  split
  · exact absurd h (other (by decide))
  · exact absurd h (other (by decide))
  · exact absurd h (other (by decide))
  · exact absurd h (other (by decide))
  · exact h

/-- **EVERY KIND OF MARKUP ENDS ITSELF.** -/
theorem closes_readMarkup : Closes readMarkup := by
  intro cs rest t h
  rw [readMarkup.eq_def] at h
  split at h
  next cs =>
    obtain ⟨used, rfl, hx⟩ := closes_readComment h
    exact ⟨'!' :: '-' :: '-' :: used, rfl, hx⟩
  next cs =>
    obtain ⟨used, rfl, hx⟩ := closes_readData h
    exact ⟨'!' :: '[' :: 'C' :: 'D' :: 'A' :: 'T' :: 'A' :: '[' :: used, rfl, hx⟩
  next cs =>
    obtain ⟨used, rfl, hx⟩ := closes_readInstruction h
    exact ⟨'?' :: used, rfl, hx⟩
  next cs =>
    obtain ⟨used, rfl, hx⟩ := closes_readClosing h
    exact ⟨'/' :: used, rfl, hx⟩
  · obtain ⟨used, rfl, hx⟩ := closes_readOpening h
    exact ⟨used, rfl, fun x => readMarkup_of_readOpening (hx x)⟩

end ReceiptPrinter.Xml
