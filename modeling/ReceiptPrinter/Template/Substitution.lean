import ReceiptPrinter.Template.Context

/-! # Substitution — filling tokens in a text

    A token is `$` and a body in braces: a path, with a format after a colon or
    without one.  A token whose path stands for nothing leaves nothing behind.  A
    brace that is never closed and a token without a body stay as they are, and what
    a token leaves behind is not looked at again. -/

namespace ReceiptPrinter.Context

variable {o : Type} [Members o]

/-- The text that the body of a token leaves behind. -/
def renderToken (c : Context o) (body : List Char) : String :=
  let token := Text.trimChars body
  match Text.splitFirst? ':' token with
  | some (path, format) =>
    match c.get? (String.ofList (Text.trimChars path)) with
    | some v => v.renderWith (String.ofList (Text.trimChars format))
    | none => ""
  | none =>
    match c.get? (String.ofList token) with
    | some v => v.render
    | none => ""

/-- The characters of a text with its tokens filled in. -/
def substituteChars (c : Context o) (cs : List Char) : List Char :=
  match cs with
  | [] => []
  | '$' :: '\x7b' :: rest =>
    match h : Text.splitFirst? '\x7d' rest with
    | some (first :: body, after) =>
      have := Text.length_of_splitFirst? h
      (c.renderToken (first :: body)).toList ++ c.substituteChars after
    | some ([], _) => '$' :: '\x7b' :: c.substituteChars rest
    | none => '$' :: '\x7b' :: rest
  | other :: rest => other :: c.substituteChars rest
termination_by cs.length
decreasing_by all_goals simp only [List.length_cons]; omega

/-- A text with its tokens filled in. -/
def substitute (c : Context o) (s : String) : String :=
  String.ofList (c.substituteChars s.toList)

/-- Nothing is left of a text without characters. -/
theorem substitute_empty (c : Context o) : c.substitute "" = "" := by
  show String.ofList (c.substituteChars []) = ""
  rw [substituteChars, String.ofList_nil]

end ReceiptPrinter.Context
