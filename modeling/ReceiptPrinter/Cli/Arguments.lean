import ReceiptPrinter.Number.Integer

/-! # Arguments — options and operands of a command line

    A command takes options in any order among its operands.  An option with a value
    is followed by it, as the next argument or after `=`; a value that starts with
    `-` can only stand after `=`, or right after a short name.  After `--` every
    argument is an operand.  No option may be given twice. -/

namespace ReceiptPrinter.Cli

/-- An option that a command takes. -/
structure OptionRule where
  name : String
  /-- The letter that stands for the name. -/
  letter : Option Char := none
  takesValue : Bool := true
deriving DecidableEq, Repr

/-- The options and operands that were given; an option without a value has an empty
    one. -/
structure Arguments where
  options : List (String × String)
  operands : List String
deriving DecidableEq, Repr

namespace Arguments

/-- No arguments. -/
def none : Arguments := ⟨[], []⟩

/-- The arguments with an option in front. -/
def withOption (a : Arguments) (name value : String) : Option Arguments :=
  if a.options.any (·.1 == name) then Option.none
  else some { a with options := (name, value) :: a.options }

/-- The arguments with an operand in front. -/
def withOperand (a : Arguments) (operand : String) : Arguments :=
  { a with operands := operand :: a.operands }

/-- The value of an option that was given. -/
def option? (a : Arguments) (name : String) : Option String :=
  a.options.lookup name

end Arguments

/-- How an argument begins. -/
inductive Shape where
  /-- `--`, after which there are only operands. -/
  | separator
  | long (name : List Char)
  | short (letter : Char) (rest : List Char)
  | operand

/-- How an argument begins. -/
def shape : List Char → Shape
  | ['-', '-'] => .separator
  | '-' :: '-' :: name => .long name
  | '-' :: letter :: rest => .short letter rest
  | _ => .operand

/-- Whether an argument can be the value of the option in front of it. -/
def isValue (arg : String) : Bool :=
  match shape arg.toList with
  | .operand => true
  | _ => false

/-- A long name and the value after `=`, if there is one. -/
def splitValue (name : List Char) : List Char × Option (List Char) :=
  match name.dropWhile (· != '=') with
  | _ :: value => (name.takeWhile (· != '='), some value)
  | [] => (name, none)

/-- The value that stands right after a short name, without the `=` between them. -/
def attached? : List Char → Option (List Char)
  | [] => none
  | '=' :: value => some value
  | value => some value

/-- The rule and the attached value of an argument that is an option. -/
def optionOf? (rules : List OptionRule) : Shape → Option (OptionRule × Option (List Char))
  | .long name =>
    let (name, value) := splitValue name
    (rules.find? (·.name == String.ofList name)).map (·, value)
  | .short letter rest =>
    (rules.find? (·.letter == some letter)).map (·, attached? rest)
  | _ => none

/-- Reads arguments; there are none if they break a rule. -/
def readArguments (rules : List OptionRule) : List String → Option Arguments
  | [] => some .none
  | arg :: rest =>
    match shape arg.toList with
    | .separator => some ⟨[], rest⟩
    | .operand => (readArguments rules rest).map (·.withOperand arg)
    | given =>
      match optionOf? rules given with
      | none => none
      | some (rule, some value) =>
        if rule.takesValue then
          (readArguments rules rest).bind (·.withOption rule.name (String.ofList value))
        else none
      | some (rule, none) =>
        if rule.takesValue then
          match rest with
          | value :: rest =>
            if isValue value then
              (readArguments rules rest).bind (·.withOption rule.name value)
            else none
          | [] => none
        else (readArguments rules rest).bind (·.withOption rule.name "")

end ReceiptPrinter.Cli
