import ReceiptPrinter.Markup.Element
import ReceiptPrinter.Number.Integer
import ReceiptPrinter.Receipt.Step
import ReceiptPrinter.Text.Blank

/-! # Tags — what elements ask for

    A tag is an element without its content.  Its attributes are read with their
    defaults: a number that cannot be read is an error, and a word that names nothing
    stands for the first choice. -/

namespace ReceiptPrinter

/-- An element without its content. -/
structure Tag where
  name : String
  attributes : Markup.Attributes
deriving DecidableEq, Repr

namespace Tag

/-- The module size of a symbol. -/
def defaultSymbolSize : UInt8 := 4

/-- The height of a bar code. -/
def defaultBarcodeHeight : UInt8 := 80

/-- The width of the bars of a bar code. -/
def defaultBarcodeWidth : UInt8 := 3

/-- The mode of an underline. -/
def defaultUnderline : UInt8 := 1

/-- How often the buzzer sounds. -/
def defaultBeepTimes : UInt8 := 1

/-- How long the buzzer sounds. -/
def defaultBeepDuration : UInt8 := 5

/-- The function that prints stored graphics. -/
def defaultImageFunction : UInt8 := 50

/-- The value of an attribute, which is empty if it is missing. -/
def value (t : Tag) (attr : String) : String :=
  (t.attributes.get? attr).getD ""

/-- The value of an attribute that must not be empty. -/
def required (t : Tag) (attr : String) : Except Error String :=
  match t.attributes.nonEmpty? attr with
  | some v => .ok v
  | none => .error (.missingAttribute t.name attr)

/-- The number that an attribute holds, unless it is missing or empty. -/
def number? (t : Tag) (attr : String) (greatest : Nat) : Except Error (Option Nat) :=
  match t.attributes.nonEmpty? attr with
  | none => .ok none
  | some v =>
    match Number.atMost? greatest (Text.trimChars v.toList) with
    | some n => .ok (some n)
    | none => .error (.attributeRange t.name attr v greatest)

/-- The byte that an attribute holds, unless it is missing or empty. -/
def byte? (t : Tag) (attr : String) : Except Error (Option UInt8) :=
  (t.number? attr 255).map (·.map UInt8.ofNat)

/-- The byte that an attribute holds, or the one that stands for a missing
    attribute. -/
def byteOr (t : Tag) (attr : String) (default : UInt8) : Except Error UInt8 :=
  (t.byte? attr).map (·.getD default)

/-- The variant that an attribute names. -/
def variant? {α : Type} (t : Tag) (attr : String) (ofName? : String → Option α) : Option α :=
  (t.attributes.get? attr).bind ofName?

/-! ## Styles -/

/-- The style that a tag gives its content, and the style that ends it. -/
def styles? (t : Tag) : Option (Except Error (Style × Style)) :=
  match t.name with
  | "bold" => some (.ok (.bold true, .bold false))
  | "invert" => some (.ok (.invert true, .invert false))
  | "rotate90" => some (.ok (.rotate true, .rotate false))
  | "underline" => some do
    let mode ← t.byteOr "mode" defaultUnderline
    .ok (.underline mode, .underline 0)
  | "size" => some do
    let width ← t.byteOr "width" 1
    let height ← t.byteOr "height" 1
    .ok (.size width height, .normalSize)
  | "align" =>
    some (.ok (.align ((t.variant? "value" Alignment.ofName?).getD .left), .align .left))
  | "font" => some (.ok (.font ((t.variant? "name" Font.ofName?).getD .a), .font .a))
  | _ => none

/-! ## Commands -/

/-- The commands of a tag that are the same whatever the context. -/
def commands? (t : Tag) : Option (Except Error (List Command)) :=
  match t.name with
  | "initialize" => some (.ok [.control .reset])
  | "feed" => some do
    match ← t.byte? "lines" with
    | some lines => .ok [.control (.feedLines lines)]
    | none =>
      match ← t.byte? "dots" with
      | some dots => .ok [.control (.feedDots dots)]
      | none => .ok []
  | "cut" => some do
    let kind := if t.attributes.get? "type" = some "full" then Cut.full else Cut.part
    match ← t.byte? "feed" with
    | some dots => .ok [.control (.feedAndCut kind dots)]
    | none => .ok [.control (.cut kind)]
  | "drawer" => some do
    let pin := if t.attributes.get? "pin" = some "5" then DrawerPin.pin5 else DrawerPin.pin2
    let onTime ← t.byteOr "onTime" drawerOnTime
    let offTime ← t.byteOr "offTime" drawerOffTime
    .ok [.control (.drawerPulse pin.code onTime offTime)]
  | "beep" => some do
    let times ← t.byteOr "times" defaultBeepTimes
    let duration ← t.byteOr "duration" defaultBeepDuration
    .ok [.control (.beep times duration)]
  | "spacing" => some do
    let character ← t.byte? "character"
    let line ← t.byte? "line"
    .ok ((character.toList.map fun dots => .style (.characterSpacing dots)) ++
      line.toList.map fun dots => .style (.lineSpacing dots))
  | "margin" => some do
    let left ← t.number? "left" 65535
    .ok (left.toList.map fun dots => .control (.leftMargin (UInt16.ofNat dots)))
  | "codepage" => some do
    let table ← t.byte? "value"
    .ok (table.toList.map fun n => .style (.codePage n))
  | _ => none

/-! ## Codes and images -/

/-- The commands of a QR symbol. -/
def symbolCommands (t : Tag) (fill : String → String) : Except Error (List Command) := do
  let data := Utf8.encode (fill (t.value "data"))
  let size ← t.byteOr "size" defaultSymbolSize
  let level := (t.variant? "errorLevel" Correction.ofName?).getD .m
  .ok (Command.wholeSymbol data size level.code)

/-- The commands of a bar code. -/
def barcodeCommands (t : Tag) (fill : String → String) : Except Error (List Command) := do
  let kind := (t.variant? "type" BarcodeKind.ofName?).getD .code128
  let data := Encoding.ascii.encode (fill (t.value "data"))
  let height ← t.byteOr "height" defaultBarcodeHeight
  let width ← t.byteOr "width" defaultBarcodeWidth
  let position := (t.attributes.nonEmpty? "hri").map fun name =>
    (TextPosition.ofName? name).getD .none
  .ok ([.barcode (.height height), .barcode (.width width)] ++
    (position.toList.map fun p => .barcode (.text p)) ++ [.barcode (.print kind.code data)])

/-- The step of an image. -/
def imageStep (t : Tag) (fill locate : String → String) : Except Error Step := do
  let path := fill (t.value "path")
  if path = "" then .error (.missingAttribute t.name "path")
  else
    let function ← t.byteOr "fn" defaultImageFunction
    .ok (.image (locate path) function)

/-- The steps of a tag, as they depend on how its attributes are filled in; `locate`
    finds the file of an image. -/
def filledSteps? (t : Tag) (locate : String → String) :
    Option ((String → String) → Except Error (List Step)) :=
  match t.name with
  | "qrcode" => some fun fill => (t.symbolCommands fill).map (·.map .command)
  | "barcode" => some fun fill => (t.barcodeCommands fill).map (·.map .command)
  | "image" => some fun fill => (t.imageStep fill locate).map ([·])
  | _ => none

end Tag

end ReceiptPrinter
