import ReceiptPrinter.Proofs.Xml.Readers

/-! # Content — text that is read in parts

    Where a written text is cut outside of its references, both parts can be read
    by themselves (`exists_of_contentText?_append`).  What they say is what the
    whole says, but for a carriage return next to the cut: whether one stays
    depends on what stands around it (`contentText?_append`). -/

namespace ReceiptPrinter.Xml

namespace RawReading

variable {r : RawReading} {flag : Bool} {rest : List Char}

theorem resolve?_nil : r.resolve? flag [] = some [] := by
  rw [resolve?]

theorem resolve?_reference {body after : List Char}
    (h : Text.splitFirst? ';' rest = some (body, after)) :
    r.resolve? flag ('&' :: rest)
      = (referenced? body).bind fun c => (r.resolve? true after).map (c :: ·) := by
  rw [resolve?]
  split
  next h' =>
    rw [h] at h'
    cases h'
  next h' =>
    rw [h] at h'
    cases h'
    cases referenced? body <;> cases r.resolve? true after <;> rfl

theorem resolve?_broken (h : Text.splitFirst? ';' rest = none) :
    r.resolve? flag ('&' :: rest) = none := by
  rw [resolve?]
  split
  next => rfl
  next h' =>
    rw [h] at h'
    cases h'

theorem resolve?_pair :
    r.resolve? flag ('\r' :: '\n' :: rest) = (r.resolve? false rest).map (r.plain '\n' :: ·) := by
  rw [resolve?]

theorem resolve?_lone (h : rest.head? ≠ some '\n') :
    r.resolve? flag ('\r' :: rest) = (r.resolve? false rest).map (r.lone flag rest :: ·) := by
  rw [resolve?]
  rintro after rfl
  exact h rfl

theorem resolve?_plain {c : Char} (amp : c ≠ '&') (cr : c ≠ '\r') :
    r.resolve? flag (c :: rest) = (r.resolve? false rest).map (r.plain c :: ·) := by
  rw [resolve?]
  · exact fun h => amp h
  · exact fun _ h _ => cr h
  · exact fun h => cr h

/-- A written text is read from its front, and so are proofs about it. -/
theorem written_induction {motive : List Char → Prop} (nil : motive [])
    (reference : ∀ rest body after, Text.splitFirst? ';' rest = some (body, after) →
      motive after → motive ('&' :: rest))
    (broken : ∀ rest, Text.splitFirst? ';' rest = none → motive ('&' :: rest))
    (pair : ∀ rest, motive rest → motive ('\r' :: '\n' :: rest))
    (lone : ∀ rest, rest.head? ≠ some '\n' → motive rest → motive ('\r' :: rest))
    (plain : ∀ c rest, c ≠ '&' → c ≠ '\r' → motive rest → motive (c :: rest))
    (cs : List Char) : motive cs := by
  induction hn : cs.length using Nat.strongRecOn generalizing cs with
  | ind n ih =>
      match cs with
      | [] => exact nil
      | c :: rest =>
          rw [List.length_cons] at hn
          by_cases amp : c = '&'
          · subst amp
            cases h : Text.splitFirst? ';' rest with
            | none => exact broken rest h
            | some p =>
                have := Text.length_of_splitFirst? h
                exact reference rest p.1 p.2 h (ih _ (by omega) p.2 rfl)
          by_cases cr : c = '\r'
          · subst cr
            by_cases hhead : rest.head? = some '\n'
            · obtain ⟨tail, rfl⟩ := List.head?_eq_some_iff.mp hhead
              rw [List.length_cons] at hn
              exact pair tail (ih _ (by omega) tail rfl)
            · exact lone rest hhead (ih _ (by omega) rest rfl)
          · exact plain c rest amp cr (ih _ (by omega) rest rfl)

/-- What stands in front of a text matters only to a carriage return. -/
theorem resolve?_flag (flag' : Bool) {cs : List Char} (h : cs.head? ≠ some '\r') :
    r.resolve? flag cs = r.resolve? flag' cs := by
  cases cs with
  | nil => rw [resolve?_nil, resolve?_nil]
  | cons c rest =>
      by_cases amp : c = '&'
      · subst amp
        cases hs : Text.splitFirst? ';' rest with
        | none => rw [resolve?_broken hs, resolve?_broken hs]
        | some p => rw [resolve?_reference hs, resolve?_reference hs]
      · have cr : c ≠ '\r' := fun e => h (congrArg some e)
        rw [resolve?_plain amp cr, resolve?_plain amp cr]

/-- Whether a text can be read does not depend on what stands in front of it. -/
theorem isSome_resolve?_flag (flag' : Bool) (cs : List Char) :
    (r.resolve? flag cs).isSome = (r.resolve? flag' cs).isSome := by
  by_cases h : cs.head? = some '\r'
  · obtain ⟨rest, rfl⟩ := List.head?_eq_some_iff.mp h
    by_cases hhead : rest.head? = some '\n'
    · obtain ⟨tail, rfl⟩ := List.head?_eq_some_iff.mp hhead
      rw [resolve?_pair, resolve?_pair]
    · rw [resolve?_lone hhead, resolve?_lone hhead, Option.isSome_map, Option.isSome_map]
  · rw [resolve?_flag flag' h]

/-- A part that stands behind what can be read can be read as well. -/
theorem isSome_resolve?_of_append {front back : List Char}
    (whole : (r.resolve? flag (front ++ back)).isSome) (hfront : (r.resolve? flag front).isSome) :
    (r.resolve? false back).isSome := by
  induction front using written_induction generalizing flag with
  | nil => rwa [List.nil_append, isSome_resolve?_flag false] at whole
  | reference rest body after hs ih =>
      obtain ⟨used, rfl, hused⟩ := closes_splitFirst? ';' hs
      rw [List.cons_append, List.append_assoc, resolve?_reference (hused _)] at whole
      rw [resolve?_reference hs] at hfront
      cases hc : referenced? body with
      | none =>
          rw [hc] at whole
          cases whole
      | some c =>
          rw [hc, Option.bind_some, Option.isSome_map] at whole hfront
          exact ih whole hfront
  | broken rest hs =>
      rw [resolve?_broken hs] at hfront
      cases hfront
  | pair rest ih =>
      rw [List.cons_append, List.cons_append, resolve?_pair, Option.isSome_map] at whole
      rw [resolve?_pair, Option.isSome_map] at hfront
      exact ih whole hfront
  | lone rest hhead ih =>
      rw [resolve?_lone hhead, Option.isSome_map] at hfront
      rw [List.cons_append] at whole
      by_cases hhead' : (rest ++ back).head? = some '\n'
      · -- The cut runs through a line end of two characters.
        cases rest with
        | cons c rest => exact absurd hhead' hhead
        | nil =>
            obtain ⟨tail, rfl⟩ := List.head?_eq_some_iff.mp hhead'
            rw [List.nil_append, resolve?_pair, Option.isSome_map] at whole
            rwa [resolve?_plain (by decide) (by decide), Option.isSome_map]
      · rw [resolve?_lone hhead', Option.isSome_map] at whole
        exact ih whole hfront
  | plain c rest amp cr ih =>
      rw [List.cons_append, resolve?_plain amp cr, Option.isSome_map] at whole
      rw [resolve?_plain amp cr, Option.isSome_map] at hfront
      exact ih whole hfront

end RawReading

/-- The last character of a part at the end is the last one of all. -/
theorem getLast?_of_append (xs : List Char) {ys : List Char} {c : Char}
    (h : (xs ++ ys).getLast? ≠ some c) :
    ys.getLast? ≠ some c := by
  intro hys
  refine h ?_
  rw [List.getLast?_append, hys]
  rfl

/-- How the text between tags is read. -/
def contentReading : RawReading where
  lone := contentReturn
  plain := id

/-- A carriage return that is not the last character looks only at the next one. -/
theorem contentReturn_append {rest : List Char} (h : rest ≠ []) (flag : Bool) (back : List Char) :
    contentReturn flag (rest ++ back) = contentReturn flag rest := by
  cases rest with
  | nil => exact absurd rfl h
  | cons c rest =>
      by_cases amp : c = '&'
      · rw [amp]
        rfl
      · have feed : ∀ after, contentReturn flag (c :: after) = '\n' := by
          intro after
          rw [contentReturn.eq_def]
          split
          next k =>
            cases k
            exact absurd rfl amp
          next k => cases k
          next => rfl
        rw [List.cons_append, feed, feed]

theorem resolve?_append {flag : Bool} {front back a b : List Char}
    (hfront : contentReading.resolve? flag front = some a)
    (hback : contentReading.resolve? false back = some b) (last : front.getLast? ≠ some '\r')
    (first : back.head? ≠ some '\r') :
    contentReading.resolve? flag (front ++ back) = some (a ++ b) := by
  induction front using RawReading.written_induction generalizing flag a with
  | nil =>
      rw [RawReading.resolve?_nil] at hfront
      cases hfront
      rwa [List.nil_append, RawReading.resolve?_flag false first]
  | reference rest body after hs ih =>
      obtain ⟨used, rfl, hused⟩ := closes_splitFirst? ';' hs
      rw [RawReading.resolve?_reference hs] at hfront
      obtain ⟨c, hc, hfront⟩ := Option.bind_eq_some_iff.mp hfront
      obtain ⟨others, hothers, rfl⟩ := Option.map_eq_some_iff.mp hfront
      have last' := getLast?_of_append ('&' :: used) last
      rw [List.cons_append, List.append_assoc, RawReading.resolve?_reference (hused _), hc,
        Option.bind_some, ih hothers last']
      rfl
  | broken rest hs =>
      rw [RawReading.resolve?_broken hs] at hfront
      cases hfront
  | pair rest ih =>
      rw [RawReading.resolve?_pair] at hfront
      obtain ⟨others, hothers, rfl⟩ := Option.map_eq_some_iff.mp hfront
      have last' := getLast?_of_append ['\r', '\n'] last
      rw [List.cons_append, List.cons_append, RawReading.resolve?_pair, ih hothers last']
      rfl
  | lone rest hhead ih =>
      have hne : rest ≠ [] := by
        rintro rfl
        exact last rfl
      rw [RawReading.resolve?_lone hhead] at hfront
      obtain ⟨others, hothers, rfl⟩ := Option.map_eq_some_iff.mp hfront
      have last' := getLast?_of_append ['\r'] last
      have hhead' : (rest ++ back).head? ≠ some '\n' := by
        rw [head?_append_of_ne_nil hne back [], List.append_nil]
        exact hhead
      rw [List.cons_append, RawReading.resolve?_lone hhead', ih hothers last']
      show some (contentReturn flag (rest ++ back) :: _) = some (contentReturn flag rest :: _)
      rw [contentReturn_append hne]
      rfl
  | plain c rest amp cr ih =>
      rw [RawReading.resolve?_plain amp cr] at hfront
      obtain ⟨others, hothers, rfl⟩ := Option.map_eq_some_iff.mp hfront
      have last' := getLast?_of_append [c] last
      rw [List.cons_append, RawReading.resolve?_plain amp cr, ih hothers last']
      rfl

variable {front back a b c : List Char}

/-- What stands behind the cut can be read by itself. -/
theorem exists_of_contentText?_append (whole : contentText? (front ++ back) = some c)
    (hfront : contentText? front = some a) : ∃ b, contentText? back = some b := by
  have h := RawReading.isSome_resolve?_of_append (Option.isSome_iff_exists.mpr ⟨c, whole⟩)
    (Option.isSome_iff_exists.mpr ⟨a, hfront⟩)
  exact Option.isSome_iff_exists.mp h

/-- **TEXT IS READ PART BY PART** where no carriage return stands next to the cut. -/
theorem contentText?_append (hfront : contentText? front = some a)
    (hback : contentText? back = some b) (last : front.getLast? ≠ some '\r')
    (first : back.head? ≠ some '\r') : contentText? (front ++ back) = some (a ++ b) :=
  resolve?_append hfront hback last first

end ReceiptPrinter.Xml
