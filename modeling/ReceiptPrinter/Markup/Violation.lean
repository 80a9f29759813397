/-! # Violations — rules that an element breaks

    A rule that an element breaks, with the path of the element.  A path names the
    elements from the root down, each but the root with its place among the elements
    beside it. -/

namespace ReceiptPrinter.Markup

/-- The rule that is broken. -/
inductive Breach where
  | rootName
  | unknownElement (name : String)
  | notAllowed (attr element : String)
  | missing (attr : String)
  | outside (attr : String) (value least greatest : Int)
  | notInteger (attr value : String)
  | notListed (attr value : String) (allowed : List String)
  | notEmpty (element : String)
  | misplaced (child element : String)
  | nestedReceipt
deriving DecidableEq, Repr

/-- A broken rule and the path of the element that breaks it. -/
structure Violation where
  path : String
  breach : Breach
deriving DecidableEq, Repr

/-- The text of a broken rule. -/
def Breach.message : Breach → String
  | .rootName => "root element must be <receipt>"
  | .unknownElement name => s!"unknown element <{name}>"
  | .notAllowed attr element => s!"attribute '{attr}' is not allowed on <{element}>"
  | .missing attr => s!"missing required attribute '{attr}'"
  | .outside attr value least greatest =>
    s!"attribute '{attr}' = {value} is outside {least}..={greatest}"
  | .notInteger attr value => s!"attribute '{attr}' = '{value}' is not an integer"
  | .notListed attr value allowed =>
    s!"attribute '{attr}' = '{value}' must be one of " ++ ", ".intercalate allowed
  | .notEmpty element => s!"<{element}> must be empty"
  | .misplaced child element => s!"<{child}> is not allowed inside <{element}>"
  | .nestedReceipt => "<receipt> cannot be nested"

/-- The text of a violation. -/
def Violation.message (v : Violation) : String :=
  s!"{v.path}: " ++ v.breach.message

end ReceiptPrinter.Markup
