import ReceiptPrinter.Proofs.Xml.Readers

/-! # Tokens of a beginning — where a document may be cut

    A document may be cut behind a token, and also within a run of text.  In front
    of the cut its tokens are what they were, up to the text that the cut runs
    through: that text is what is left of the beginning, and goes on behind the cut
    (`tokensOnto_append`).  The declaration in front of the document, if there is
    one, ends itself as well, so the same holds of the whole (`tokens?_append`). -/

namespace ReceiptPrinter.Xml

/-! ## One token -/

/-- The tokens of a run of text. -/
def textTokens (written : List Char) : List Token :=
  if written = [] then [] else [.text written]

@[simp] theorem textTokens_nil : textTokens [] = [] := rfl

theorem textTokens_cons (c : Char) (written : List Char) :
    textTokens (c :: written) = [.text (c :: written)] :=
  if_neg (List.cons_ne_nil _ _)

theorem tokensOnto_nil (read : List Token) : tokensOnto read [] = some read.reverse := by
  rw [tokensOnto]

theorem tokensOnto_markup {rest after : List Char} {t : Token}
    (h : readMarkup rest = some (t, after)) (read : List Token) :
    tokensOnto read ('<' :: rest) = tokensOnto (t :: read) after := by
  rw [tokensOnto]
  split
  next h' =>
    rw [h] at h'
    cases h'
  next h' =>
    rw [h] at h'
    cases h'
    rfl

theorem tokensOnto_markup_none {rest : List Char} (h : readMarkup rest = none)
    (read : List Token) : tokensOnto read ('<' :: rest) = none := by
  rw [tokensOnto]
  split
  next => rfl
  next h' =>
    rw [h] at h'
    cases h'

theorem tokensOnto_text {c : Char} (hc : c ≠ '<') (rest : List Char) (read : List Token) :
    tokensOnto read (c :: rest)
      = if hasMark [']', ']', '>'] (c :: rest.takeWhile (· ≠ '<')) then none
        else tokensOnto (.text (c :: rest.takeWhile (· ≠ '<')) :: read)
          (rest.dropWhile (· ≠ '<')) := by
  rw [tokensOnto]
  exact hc

/-- Documents are read token by token, and so are proofs about them. -/
theorem tokens_induction {motive : List Char → Prop} (nil : motive [])
    (markup : ∀ rest t after, readMarkup rest = some (t, after) → motive after →
      motive ('<' :: rest))
    (broken : ∀ rest, readMarkup rest = none → motive ('<' :: rest))
    (run : ∀ c rest, c ≠ '<' → motive (rest.dropWhile (· ≠ '<')) → motive (c :: rest))
    (cs : List Char) : motive cs := by
  induction hn : cs.length using Nat.strongRecOn generalizing cs with
  | ind n ih =>
      cases cs with
      | nil => exact nil
      | cons c rest =>
          rw [List.length_cons] at hn
          by_cases hc : c = '<'
          · subst hc
            cases h : readMarkup rest with
            | none => exact broken rest h
            | some r =>
                have := length_readMarkup h
                exact markup rest r.1 r.2 h (ih _ (by omega) r.2 rfl)
          · have := (List.dropWhile_suffix (l := rest) (· ≠ '<')).length_le
            exact run c rest hc (ih _ (by omega) _ rfl)

/-- A run of text goes up to the next markup. -/
theorem not_mem_run (cs : List Char) : '<' ∉ cs.takeWhile (· ≠ '<') := by
  intro hmem
  simpa using List.all_eq_true.mp List.all_takeWhile _ hmem

theorem eq_of_mem_head?_behindRun (cs : List Char) :
    ∀ c ∈ (cs.dropWhile (· ≠ '<')).head?, c = '<' := by
  intro c hc
  simpa using not_of_mem_head?_dropWhile hc

/-- A run of text in front of markup, or at the end, is one token. -/
theorem tokensOnto_run {written : List Char} (plain : '<' ∉ written) (rest : List Char)
    (hrest : ∀ c ∈ rest.head?, c = '<') (read : List Token) :
    tokensOnto read (written ++ rest)
      = if hasMark [']', ']', '>'] written then none
        else tokensOnto ((textTokens written).reverse ++ read) rest := by
  cases written with
  | nil => rfl
  | cons c written =>
      rw [List.mem_cons, not_or] at plain
      have inside : ∀ d ∈ written, decide (d ≠ '<') = true := by
        intro d hd
        rw [decide_eq_true_eq]
        rintro rfl
        exact plain.2 hd
      have outside : rest.takeWhile (· ≠ '<') = [] ∧ rest.dropWhile (· ≠ '<') = rest := by
        cases rest with
        | nil => exact ⟨rfl, rfl⟩
        | cons d rest => simp [hrest d rfl]
      rw [List.cons_append, tokensOnto_text (Ne.symm plain.1), List.takeWhile_append_of_pos inside,
        List.dropWhile_append_of_pos inside, outside.1, outside.2, List.append_nil, textTokens_cons]
      rfl

/-- The tokens of a text do not depend on those before it. -/
theorem tokensOnto_eq (read : List Token) (cs : List Char) :
    tokensOnto read cs = (tokensOnto [] cs).map (read.reverse ++ ·) := by
  induction cs using tokens_induction generalizing read with
  | nil => rw [tokensOnto_nil, tokensOnto_nil, Option.map_some, List.reverse_nil, List.append_nil]
  | markup rest t after h ih =>
      rw [tokensOnto_markup h, tokensOnto_markup h, ih (t :: read), ih [t], Option.map_map]
      congr 1
      funext ts
      simp
  | broken rest h => rw [tokensOnto_markup_none h, tokensOnto_markup_none h, Option.map_none]
  | run c rest hc ih =>
      rw [tokensOnto_text hc, tokensOnto_text hc]
      split
      · rfl
      · rw [ih, ih [_], Option.map_map]
        congr 1
        funext ts
        simp

/-! ## Beginnings -/

/-- **A DOCUMENT MAY BE CUT ANYWHERE OUTSIDE MARKUP.**  Its tokens up to the cut are
    those of the beginning, but for the text `written` that the cut runs through. -/
theorem tokensOnto_append {read ts : List Token} {cs : List Char}
    (h : tokensOnto read cs = some ts) : ∃ front written done, cs = front ++ written
      ∧ '<' ∉ written ∧ ts = done ++ textTokens written
      ∧ ∀ x, tokensOnto read (front ++ x) = tokensOnto done.reverse x := by
  induction cs using tokens_induction generalizing read with
  | nil =>
      rw [tokensOnto_nil] at h
      cases h
      refine ⟨[], [], read.reverse, rfl, List.not_mem_nil, by simp, ?_⟩
      intro x
      rw [List.nil_append, List.reverse_reverse]
  | markup rest t after hr ih =>
      rw [tokensOnto_markup hr] at h
      obtain ⟨front, written, done, rfl, plain, rfl, hx⟩ := ih h
      obtain ⟨used, rfl, hused⟩ := closes_readMarkup hr
      refine ⟨'<' :: (used ++ front), written, done, by simp, plain, rfl, ?_⟩
      intro x
      rw [List.cons_append, List.append_assoc, tokensOnto_markup (hused _), hx]
  | broken rest hr =>
      rw [tokensOnto_markup_none hr] at h
      cases h
  | run c rest hc ih =>
      rw [tokensOnto_text hc] at h
      split at h
      · cases h
      next hmark =>
        have plain : '<' ∉ c :: rest.takeWhile (· ≠ '<') := by
          rw [List.mem_cons, not_or]
          exact ⟨Ne.symm hc, not_mem_run rest⟩
        have whole : rest.takeWhile (· ≠ '<') ++ rest.dropWhile (· ≠ '<') = rest :=
          List.takeWhile_append_dropWhile
        have border := eq_of_mem_head?_behindRun rest
        obtain ⟨front, written, done, hback, plain', rfl, hx⟩ := ih h
        rw [hback] at whole border
        cases front with
        | nil =>
            -- Nothing but text is left, so the cut runs through this run.
            have hnil : written = [] := by
              cases written with
              | nil => rfl
              | cons d written =>
                  rw [border d rfl] at plain'
                  exact absurd List.mem_cons_self plain'
            subst hnil
            have hdone := hx []
            rw [List.append_nil, tokensOnto_nil, tokensOnto_nil, List.reverse_reverse] at hdone
            rw [← Option.some.inj hdone]
            rw [List.append_nil, List.append_nil] at whole
            rw [whole] at plain ⊢
            refine ⟨[], c :: rest, read.reverse, rfl, plain, by simp [textTokens_cons], ?_⟩
            intro x
            rw [List.nil_append, List.reverse_reverse]
        | cons d front =>
            refine ⟨c :: (rest.takeWhile (· ≠ '<') ++ d :: front), written, done, ?_, plain', rfl,
              ?_⟩
            · rw [List.cons_append, List.append_assoc, whole]
            · intro x
              have hrun := tokensOnto_run plain (d :: front ++ x) (by simpa using border d rfl) read
              rw [if_neg hmark, textTokens_cons] at hrun
              have hinput : c :: (rest.takeWhile (· ≠ '<') ++ d :: front) ++ x
                  = c :: rest.takeWhile (· ≠ '<') ++ (d :: front ++ x) := by simp
              rw [hinput, hrun]
              exact hx x

/-! ## Declarations -/

/-- A text that ends with the mark that a declaration ends with. -/
def Ended (used : List Char) : Prop :=
  ['?', '>'] <:+ used

theorem Ended.append {used : List Char} (h : Ended used) (front : List Char) :
    Ended (front ++ used) :=
  h.trans (List.suffix_append front used)

theorem Ended.mem {used : List Char} (h : Ended used) : '>' ∈ used :=
  h.subset (by simp)

theorem Ended.ne_nil {used : List Char} (h : Ended used) : used ≠ [] :=
  List.ne_nil_of_mem h.mem

/-- A step over some of a declaration, which does not depend on what stands behind
    the declaration. -/
def Passes (step : List Char → Option (List Char)) : Prop :=
  ∀ ⦃cs used rest : List Char⦄, Ended used → step cs = some (used ++ rest) →
    ∃ more, Ended more ∧ cs = more ++ rest ∧ ∀ x, step (more ++ x) = some (used ++ x)

theorem Passes.bind {f g : List Char → Option (List Char)} (hf : Passes f) (hg : Passes g) :
    Passes fun cs => (f cs).bind g := by
  intro cs used rest ended h
  obtain ⟨between, hbetween, h⟩ := Option.bind_eq_some_iff.mp h
  obtain ⟨one, ended, rfl, hone⟩ := hg ended h
  obtain ⟨two, ended, rfl, htwo⟩ := hf ended hbetween
  refine ⟨two, ended, rfl, ?_⟩
  intro x
  dsimp only
  rw [htwo, Option.bind_some, hone]

theorem passes_skipSpaces : Passes fun cs => some (skipSpaces cs) := by
  intro cs used rest ended h
  obtain ⟨front, hcs, hskip⟩ := skipSpaces_of_head? cs
  rw [Option.some.inj h] at hcs hskip
  refine ⟨front ++ used, ended.append front, by simpa using hcs, ?_⟩
  intro x
  dsimp only
  rw [List.append_assoc, hskip _ (head?_append_of_ne_nil ended.ne_nil _ _)]

theorem passes_readAttribute : Passes fun cs => (readAttribute cs).map Prod.snd := by
  intro cs used rest ended h
  obtain ⟨⟨entry, after⟩, ha, rfl⟩ := Option.map_eq_some_iff.mp h
  obtain ⟨one, rfl, hone⟩ := closes_readAttribute ha
  refine ⟨one ++ used, ended.append one, by simp, ?_⟩
  intro x
  dsimp only
  rw [List.append_assoc, hone]
  rfl

theorem passes_readDeclared {word : List Char} (hword : '>' ∉ word) :
    Passes (readDeclared word) := by
  intro cs used rest ended h
  rw [readDeclared] at h
  split at h
  next hprefix =>
    obtain ⟨⟨entry, after⟩, ha, he⟩ := Option.bind_eq_some_iff.mp h
    dsimp only at he
    split at he
    next hend =>
      obtain ⟨front, hafter, hskip⟩ := skipSpaces_of_head? after
      obtain ⟨one, rfl, hone⟩ := closes_readAttribute ha
      rw [Option.some.inj he, ← List.append_assoc] at hafter
      rw [Option.some.inj he] at hskip
      subst hafter
      have ended' := ended.append front
      refine ⟨one ++ (front ++ used), ended'.append one, by simp, ?_⟩
      intro x
      have hlength : ['?', '>'].length ≤ (front ++ used).length := ended'.length_le
      have hstart : startsSpace (front ++ used ++ x) = startsSpace (front ++ used ++ rest) :=
        startsSpace_of_head? (head?_append_of_ne_nil ended'.ne_nil _ _)
      rw [← List.append_assoc, isPrefixOf_append_of_mem (ended'.append one).mem hword rest x]
        at hprefix
      rw [← hstart, isPrefixOf_append_of_length hlength rest x] at hend
      rw [readDeclared, if_pos hprefix, List.append_assoc, hone, Option.bind_some]
      dsimp only
      rw [if_pos hend, List.append_assoc, hskip _ (head?_append_of_ne_nil ended.ne_nil _ _)]
    · cases he
  · cases h

/-- A step that is taken only in front of a word. -/
theorem Passes.ite {step : List Char → Option (List Char)} (h : Passes step) {word : List Char}
    (hword : '>' ∉ word) :
    Passes fun cs => if word.isPrefixOf cs then step cs else some cs := by
  intro cs used rest ended hcs
  dsimp only at hcs
  split at hcs
  next hprefix =>
    obtain ⟨more, ended', rfl, hx⟩ := h ended hcs
    refine ⟨more, ended', rfl, ?_⟩
    intro x
    rw [isPrefixOf_append_of_mem ended'.mem hword rest x] at hprefix
    dsimp only
    rw [if_pos hprefix, hx]
  next hprefix =>
    cases hcs
    refine ⟨used, ended, rfl, ?_⟩
    intro x
    rw [isPrefixOf_append_of_mem ended.mem hword rest x] at hprefix
    dsimp only
    rw [if_neg hprefix]

theorem passes_skipDeclared {word : List Char} (hword : '>' ∉ word) : Passes (skipDeclared word) :=
  Passes.ite (passes_readDeclared hword) hword

/-- How a declaration begins. -/
def declarationStart : List Char := ['<', '?', 'x', 'm', 'l', ' ']

/-- The steps over a declaration behind its name, up to the mark at its end. -/
def declarationSteps (cs : List Char) : Option (List Char) :=
  ((readDeclared ['v', 'e', 'r', 's', 'i', 'o', 'n'] (skipSpaces cs)).bind
    (skipDeclared ['e', 'n', 'c', 'o', 'd', 'i', 'n', 'g'])).bind fun rest =>
      if ['s', 't', 'a', 'n', 'd', 'a', 'l', 'o', 'n', 'e'].isPrefixOf rest then
        (readAttribute rest).map Prod.snd
      else some rest

theorem skipDeclaration_eq (cs : List Char) :
    skipDeclaration cs
      = if declarationStart.isPrefixOf cs then
          (declarationSteps (cs.drop 5)).bind fun rest =>
            if ['?', '>'].isPrefixOf (skipSpaces rest) then some ((skipSpaces rest).drop 2)
            else none
        else some cs := by
  rw [declarationSteps, Option.bind_assoc]
  rfl

theorem passes_declarationSteps : Passes declarationSteps := by
  have version := passes_skipSpaces.bind (passes_readDeclared
    (show '>' ∉ ['v', 'e', 'r', 's', 'i', 'o', 'n'] by decide))
  have encoding := version.bind (passes_skipDeclared
    (show '>' ∉ ['e', 'n', 'c', 'o', 'd', 'i', 'n', 'g'] by decide))
  exact encoding.bind (passes_readAttribute.ite
    (show '>' ∉ ['s', 't', 'a', 'n', 'd', 'a', 'l', 'o', 'n', 'e'] by decide))

/-- A declaration ends itself. -/
theorem skipDeclaration_closes {cs rest : List Char} (h : skipDeclaration cs = some rest)
    (declared : declarationStart.isPrefixOf cs = true) :
    ∃ used, used ≠ [] ∧ cs = used ++ rest ∧ ∀ x, skipDeclaration (used ++ x) = some x := by
  rw [skipDeclaration_eq, if_pos declared] at h
  obtain ⟨d, hd, h⟩ := Option.bind_eq_some_iff.mp h
  split at h
  next hend =>
    obtain ⟨r, hr⟩ := List.isPrefixOf_iff_prefix.mp hend
    rw [← hr] at h
    obtain rfl : r = rest := Option.some.inj h
    have ended : Ended ['?', '>'] := List.suffix_refl _
    obtain ⟨two, ended, rfl, htwo⟩ := passes_skipSpaces ended (congrArg some hr.symm)
    obtain ⟨one, ended, hone', hone⟩ := passes_declarationSteps ended hd
    have hcs : cs.take 5 ++ one ++ r = cs := by
      rw [List.append_assoc, ← hone', List.take_append_drop]
    refine ⟨cs.take 5 ++ one, (ended.append _).ne_nil, hcs.symm, ?_⟩
    intro x
    have hfive : (cs.take 5).length = 5 := by
      have hlength : 6 ≤ cs.length := (List.isPrefixOf_iff_prefix.mp declared).length_le
      rw [List.length_take]
      omega
    have declared' : declarationStart.isPrefixOf (cs.take 5 ++ one ++ x) = true := by
      rw [← declared, isPrefixOf_append_of_mem (ended.append _).mem (by decide) x r, hcs]
    have hdrop : (cs.take 5 ++ one ++ x).drop 5 = one ++ x := by
      rw [List.append_assoc, List.drop_left' hfive]
    have hskip : skipSpaces (two ++ x) = '?' :: '>' :: x := Option.some.inj (htwo x)
    rw [skipDeclaration_eq, if_pos declared', hdrop, hone, Option.bind_some, hskip]
    rfl
  · cases h

/-! ## Documents -/

/-- The document behind a mark of the byte order. -/
def behindMark : List Char → List Char
  | '\uFEFF' :: rest => rest
  | cs => cs

theorem tokens?_eq (s : String) : tokens? s
    = if s.toList.all isAllowed then (skipDeclaration (behindMark s.toList)).bind (tokensOnto [])
      else none :=
  rfl

theorem behindMark_of_head? (cs : List Char) : ∃ mark, cs = mark ++ behindMark cs
    ∧ ∀ x, x.head? = (behindMark cs).head? → behindMark (mark ++ x) = x := by
  rw [behindMark.eq_def]
  split
  next rest => exact ⟨['\uFEFF'], rfl, fun x _ => rfl⟩
  next hmark =>
    refine ⟨[], rfl, ?_⟩
    intro x hx
    cases x with
    | nil => rfl
    | cons c x =>
        rw [List.nil_append, behindMark.eq_def]
        split
        next rest heq =>
          cases heq
          cases cs with
          | nil => cases hx
          | cons d cs =>
              cases hx
              exact absurd rfl (hmark cs)
        next => rfl

/-- What is read as content begins no declaration, whatever stands behind it. -/
theorem not_declared {front : List Char} (hne : front ≠ []) {ts : List Token}
    (h : tokensOnto [] front = some ts) (x : List Char) :
    ¬ declarationStart.isPrefixOf (front ++ x) = true := by
  intro declared
  obtain ⟨tail, htail⟩ := List.isPrefixOf_iff_prefix.mp declared
  cases front with
  | nil => exact hne rfl
  | cons c rest =>
      have htail : '<' :: '?' :: 'x' :: 'm' :: 'l' :: ' ' :: tail = c :: (rest ++ x) := htail
      obtain ⟨rfl, hrest⟩ := List.cons.inj htail
      cases hr : readMarkup rest with
      | none =>
          rw [tokensOnto_markup_none hr] at h
          cases h
      | some r =>
          -- The name of a declaration is refused as that of an instruction.
          obtain ⟨used, rfl, hused⟩ := closes_readMarkup hr
          have hmarkup := hused (r.2 ++ x)
          rw [← List.append_assoc, ← hrest] at hmarkup
          cases hmarkup

/-- A document is read behind its beginning as the content is read behind that. -/
theorem tokens?_behind {before : String} (allowed : before.toList.all isAllowed = true)
    {used written : List Char} (hused : behindMark before.toList = used ++ written)
    (hne : used ≠ []) {done : List Token} (hread : ∀ x,
      (skipDeclaration (used ++ x)).bind (tokensOnto []) = tokensOnto done.reverse x) :
    ∃ front, before.toList = front ++ written ∧ ∀ x : List Char,
      tokens? (String.ofList (front ++ x))
        = if x.all isAllowed then tokensOnto done.reverse x else none := by
  obtain ⟨mark, hmark, hbehind⟩ := behindMark_of_head? before.toList
  rw [hused] at hmark hbehind
  rw [← List.append_assoc] at hmark
  refine ⟨mark ++ used, hmark, ?_⟩
  intro x
  rw [hmark, List.all_append, Bool.and_eq_true] at allowed
  rw [tokens?_eq, String.toList_ofList, List.all_append, allowed.1, Bool.true_and,
    List.append_assoc, hbehind _ (head?_append_of_ne_nil hne x written), hread]

/-- **A DOCUMENT MAY BE CUT ANYWHERE IN ITS CONTENT.**  What stands behind the cut is
    read onto the tokens in front of it. -/
theorem tokens?_append {before : String} {ts : List Token} (h : tokens? before = some ts) :
    ∃ front written done, before.toList = front ++ written ∧ '<' ∉ written
      ∧ ts = done ++ textTokens written
      ∧ (done ≠ [] → ∀ x : List Char, tokens? (String.ofList (front ++ x))
          = if x.all isAllowed then tokensOnto done.reverse x else none) := by
  rw [tokens?_eq] at h
  split at h
  next allowed =>
    obtain ⟨content, hcontent, h⟩ := Option.bind_eq_some_iff.mp h
    obtain ⟨front, written, done, rfl, plain, rfl, hx⟩ := tokensOnto_append h
    by_cases declared : declarationStart.isPrefixOf (behindMark before.toList) = true
    · obtain ⟨used, hne, hused, hskip⟩ := skipDeclaration_closes hcontent declared
      rw [← List.append_assoc] at hused
      obtain ⟨front', hbefore, hreads⟩ := tokens?_behind allowed hused (by simp [hne])
        fun x => by rw [List.append_assoc, hskip, Option.bind_some, hx]
      exact ⟨front', written, done, hbefore, plain, rfl, fun _ => hreads⟩
    · rw [skipDeclaration_eq, if_neg declared] at hcontent
      have hcontent : behindMark before.toList = front ++ written := Option.some.inj hcontent
      have hread : tokensOnto [] front = some done := by
        have hnil := hx []
        rwa [List.append_nil, tokensOnto_nil, List.reverse_reverse] at hnil
      by_cases hne : front = []
      · -- There is nothing in front of the cut.
        subst hne
        rw [tokensOnto_nil] at hread
        obtain ⟨mark, hmark, -⟩ := behindMark_of_head? before.toList
        rw [hcontent] at hmark
        exact ⟨mark, written, done, hmark, plain, rfl,
          fun h => absurd (Option.some.inj hread).symm h⟩
      · obtain ⟨front', hbefore, hreads⟩ := tokens?_behind allowed hcontent hne
          fun x => by rw [skipDeclaration_eq, if_neg (not_declared hne hread x),
            Option.bind_some, hx]
        exact ⟨front', written, done, hbefore, plain, rfl, fun _ => hreads⟩
  · cases h

end ReceiptPrinter.Xml
