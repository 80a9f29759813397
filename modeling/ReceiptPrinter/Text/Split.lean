/-! # Splitting — a text and its pieces

    A text splits at a separator into the pieces between its occurrences, and joining
    the pieces with the separator gives the text back. -/

namespace ReceiptPrinter.Text

/-- The pieces of a text between the occurrences of a separator. -/
def splitAtEach (sep : Char) : List Char → List (List Char)
  | [] => [[]]
  | c :: rest =>
    if c = sep then [] :: splitAtEach sep rest
    else
      match splitAtEach sep rest with
      | [] => [[c]]
      | piece :: more => (c :: piece) :: more

/-- Pieces with a separator between them. -/
def joinWith (sep : Char) : List (List Char) → List Char
  | [] => []
  | [piece] => piece
  | piece :: more => piece ++ sep :: joinWith sep more

/-- A text splits into at least one piece. -/
theorem splitAtEach_ne_nil (sep : Char) (cs : List Char) : splitAtEach sep cs ≠ [] := by
  cases cs with
  | nil => exact List.cons_ne_nil _ _
  | cons c rest =>
      rw [splitAtEach]
      split
      · exact List.cons_ne_nil _ _
      · split <;> exact List.cons_ne_nil _ _

/-- Joining the pieces of a text gives the text back. -/
theorem joinWith_splitAtEach (sep : Char) (cs : List Char) :
    joinWith sep (splitAtEach sep cs) = cs := by
  induction cs with
  | nil => rfl
  | cons c rest ih =>
      obtain ⟨piece, more, hp⟩ := List.exists_cons_of_ne_nil (splitAtEach_ne_nil sep rest)
      rw [hp] at ih
      rw [splitAtEach, hp]
      split
      next hsep =>
        show sep :: joinWith sep (piece :: more) = c :: rest
        rw [ih, hsep]
      next hsep =>
        show joinWith sep ((c :: piece) :: more) = c :: rest
        cases more with
        | nil => exact congrArg (c :: ·) ih
        | cons next others => exact congrArg (c :: ·) ih

/-- The text before the first separator and the text after it, when there is one. -/
def splitFirst? (sep : Char) : List Char → Option (List Char × List Char)
  | [] => none
  | c :: rest =>
    if c = sep then some ([], rest)
    else (splitFirst? sep rest).map fun (before, after) => (c :: before, after)

/-- A text that splits is its two parts with the separator between them, and the
    first part has no separator. -/
theorem splitFirst?_eq_some {sep : Char} {cs before after : List Char}
    (h : splitFirst? sep cs = some (before, after)) :
    cs = before ++ sep :: after ∧ sep ∉ before := by
  induction cs generalizing before with
  | nil => cases h
  | cons c rest ih =>
      rw [splitFirst?] at h
      split at h
      next hsep =>
        cases h
        exact ⟨by rw [hsep, List.nil_append], List.not_mem_nil⟩
      next hsep =>
        obtain ⟨⟨front, back⟩, hb, he⟩ := Option.map_eq_some_iff.mp h
        cases he
        obtain ⟨hrest, hn⟩ := ih hb
        refine ⟨by rw [hrest, List.cons_append], ?_⟩
        rw [List.mem_cons, not_or]
        exact ⟨fun e => hsep e.symm, hn⟩

/-- What stands after the first separator is shorter than the text. -/
theorem length_of_splitFirst? {sep : Char} {cs before after : List Char}
    (h : splitFirst? sep cs = some (before, after)) : after.length < cs.length := by
  rw [(splitFirst?_eq_some h).1, List.length_append, List.length_cons]
  omega

end ReceiptPrinter.Text
