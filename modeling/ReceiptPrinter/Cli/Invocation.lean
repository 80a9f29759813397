import ReceiptPrinter.Cli.Arguments

/-! # Invocations — what a command line asks for

    The first argument names the command.  A number is an unsigned decimal below
    `2 ^ 64`, and a path is not empty. -/

namespace ReceiptPrinter.Cli

/-- The markup to compile, and what its settings are changed by. -/
structure Source where
  markup : String
  data : Option String
  options : Option String
  encoding : Option String
  skipValidation : Bool
  maxLoopItems : Option Nat
deriving DecidableEq, Repr

/-- What a command line asks for. -/
inductive Invocation where
  /-- Writes the bytes of a receipt to a file. -/
  | compile (source : Source) (output : Option String)
  /-- Shows the bytes in a file as text. -/
  | decode (input : String) (width : Option Nat)
  /-- Shows a receipt as text. -/
  | preview (source : Source) (width : Option Nat)
  /-- Sends the bytes of a receipt to a device. -/
  | print (source : Source) (device : String)
deriving DecidableEq, Repr

/-- The device that receipts are sent to when none is named. -/
def defaultDevice : String := "/dev/usb/lp0"

/-- The options that a source takes. -/
def sourceRules : List OptionRule := [
  { name := "data" }, { name := "options" }, { name := "encoding" },
  { name := "no-validate", takesValue := false }, { name := "max-loop-items" }]

/-- The option that names a file to write. -/
def outputRule : OptionRule := { name := "output", letter := some 'o' }

/-- The option that gives the characters of a line. -/
def widthRule : OptionRule := { name := "width" }

/-- The option that names a device. -/
def deviceRule : OptionRule := { name := "device" }

/-- A path that was given. -/
def path? (s : String) : Option String :=
  if s = "" then none else some s

/-- A number that was given. -/
def number? (s : String) : Option Nat :=
  Number.atMost? (UInt64.size - 1) s.toList

/-- The value of an option that need not be given; one that cannot be read is
    refused. -/
def optional? {α : Type} (a : Arguments) (name : String) (read? : String → Option α) :
    Option (Option α) :=
  match a.option? name with
  | none => some none
  | some value => (read? value).map some

/-- The only operand, a path. -/
def onlyPath? (a : Arguments) : Option String :=
  match a.operands with
  | [s] => path? s
  | _ => none

/-- The source that arguments describe. -/
def source? (a : Arguments) : Option Source := do
  let markup ← onlyPath? a
  let data ← optional? a "data" path?
  let options ← optional? a "options" path?
  let encoding ← optional? a "encoding" some
  let maxLoopItems ← optional? a "max-loop-items" number?
  some {
    markup, data, options, encoding, maxLoopItems
    skipValidation := (a.option? "no-validate").isSome }

/-- What a command line asks for, unless it breaks a rule. -/
def Invocation.read? : List String → Option Invocation
  | "compile" :: args => do
    let a ← readArguments (outputRule :: sourceRules) args
    let source ← source? a
    let output ← optional? a "output" path?
    some (.compile source output)
  | "decode" :: args => do
    let a ← readArguments [widthRule] args
    let input ← onlyPath? a
    let width ← optional? a "width" number?
    some (.decode input width)
  | "preview" :: args => do
    let a ← readArguments (widthRule :: sourceRules) args
    let source ← source? a
    let width ← optional? a "width" number?
    some (.preview source width)
  | "print" :: args => do
    let a ← readArguments (deviceRule :: sourceRules) args
    let source ← source? a
    let device ← optional? a "device" path?
    some (.print source (device.getD defaultDevice))
  | _ => none

end ReceiptPrinter.Cli
