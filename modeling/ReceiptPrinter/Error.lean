import ReceiptPrinter.Files.Fault
import ReceiptPrinter.Image.Fault
import ReceiptPrinter.Markup.Violation

/-! # Errors — all that can go wrong

    Everything that can go wrong, by its cause.  An error belongs to a category,
    which opens its text. -/

namespace ReceiptPrinter

/-- A parameter of a printer command that has a range of its own. -/
inductive Quantity where
  | characterWidth
  | characterHeight
  | barcodeLength
  | moduleSize
  | correctionLevel
  | symbolLength
  | rasterWidth
  | rasterHeight
  | graphicsLength
  | graphicsWidth
  | graphicsHeight
  | lineWidth
deriving DecidableEq, Repr

/-- The name of a quantity. -/
def Quantity.name : Quantity → String
  | .characterWidth => "width"
  | .characterHeight => "height"
  | .barcodeLength => "barcode data length"
  | .moduleSize => "QR module size"
  | .correctionLevel => "QR error correction level"
  | .symbolLength => "QR data length"
  | .rasterWidth => "raster width"
  | .rasterHeight => "raster height"
  | .graphicsLength => "graphics payload length"
  | .graphicsWidth => "graphics width"
  | .graphicsHeight => "graphics height"
  | .lineWidth => "line_width"

/-- The range of a quantity, as it is written. -/
def Quantity.range : Quantity → String
  | .characterWidth => "1..=8"
  | .characterHeight => "1..=8"
  | .barcodeLength => "0..=255"
  | .moduleSize => "1..=16"
  | .correctionLevel => "48..=51"
  | .symbolLength => "0..=65532"
  | .rasterWidth => "1..=65535"
  | .rasterHeight => "1..=65535"
  | .graphicsLength => "0..=65535"
  | .graphicsWidth => "1..=65535"
  | .graphicsHeight => "1..=65535"
  | .lineWidth => "1.."

/-- What went wrong. -/
inductive Error where
  /-- A command parameter lies outside its range. -/
  | outOfRange (quantity : Quantity) (value : Nat)
  /-- Bar code data that a NUL ends holds a NUL. -/
  | barcodeTerminator
  /-- Raster data does not fill its rows. -/
  | rasterLength (widthBytes height actual : Nat)
  /-- No such function prints stored graphics. -/
  | printFunction (code : Nat)
  /-- An attribute is not an integer from 0 to `greatest`. -/
  | attributeRange (element attr value : String) (greatest : Nat)
  /-- A file is not the JSON text it should be. -/
  | malformedJson (path reason : String)
  | bitmap (fault : BitmapFault)
  | unknownEncoding (name : String)
  | blankKey
  | noScope
  | loopOutsideScope (name : String)
  | contextRequired (element : String)
  | missingAttribute (element attr : String)
  | notEnumerable (source : String)
  | tooManyItems (source : String) (count limit : Nat)
  | invalid (violations : List Markup.Violation)
  | malformedMarkup (reason : String)
  | deviceUnavailable (path : String) (fault : FileFault)
  | deviceFailed (fault : FileFault)
  | writeOnly (path : String)
  /-- A file that the user named could not be used. -/
  | file (fault : FileFault)
  /-- A file that the markup names could not be used. -/
  | namedFile (path : String) (fault : FileFault)
deriving DecidableEq, Repr

/-- The kinds of errors. -/
inductive Error.Category where
  | invalidCommand
  | bitmap
  | encoding
  | template
  | structural
  | validation
  | markup
  | transport
  | unsupported
  | files
deriving DecidableEq, Repr

namespace Error

/-- The kind of an error. -/
def category : Error → Category
  | .outOfRange .. | .barcodeTerminator | .rasterLength .. | .printFunction .. => .invalidCommand
  | .attributeRange .. | .malformedJson .. => .invalidCommand
  | .bitmap .. => .bitmap
  | .unknownEncoding .. => .encoding
  | .blankKey | .noScope | .loopOutsideScope .. | .contextRequired .. => .template
  | .missingAttribute .. | .notEnumerable .. | .tooManyItems .. => .structural
  | .invalid .. => .validation
  | .malformedMarkup .. => .markup
  | .deviceUnavailable .. | .deviceFailed .. => .transport
  | .writeOnly .. => .unsupported
  | .file .. | .namedFile .. => .files

/-- How the text of an error of each kind begins. -/
def Category.label : Category → String
  | .invalidCommand => "Invalid command"
  | .bitmap => "Bitmap error"
  | .encoding => "Unsupported encoding"
  | .template => "Template error"
  | .structural => "Structure error"
  | .validation => "Validation failed"
  | .markup => "XML error"
  | .transport => "Transport error"
  | .unsupported => "Unsupported operation"
  | .files => "I/O error"

/-- What an error says after its kind. -/
def detail : Error → String
  | .outOfRange quantity value => s!"{quantity.name} = {value} is outside {quantity.range}"
  | .barcodeTerminator => "barcode data may not contain NUL in the terminated form"
  | .rasterLength widthBytes height actual =>
    let expected := widthBytes * height
    s!"raster data length must be {expected} ({widthBytes} bytes × {height} rows), got {actual}"
  | .printFunction code => s!"print function must be 2 or 50, got {code}"
  | .attributeRange element attr value greatest =>
    s!"<{element}> {attr} = '{value}' is outside 0..={greatest}"
  | .malformedJson path reason => s!"Failed to parse {path}: {reason}"
  | .bitmap fault => fault.message
  | .unknownEncoding name => name
  | .blankKey => "key cannot be empty or whitespace"
  | .noScope => "no scope to pop"
  | .loopOutsideScope name => s!"loop variable '{name}' set outside a scope"
  | .contextRequired element => s!"<{element}> requires a template context"
  | .missingAttribute element attr =>
    s!"<{element}> is missing required attribute '{attr}'"
  | .notEnumerable source => s!"the value at '{source}' is not enumerable"
  | .tooManyItems source count limit =>
    s!"'{source}' has {count} items, more than the limit of {limit}"
  | .invalid violations => "; ".intercalate (violations.map Markup.Violation.message)
  | .malformedMarkup reason => reason
  | .deviceUnavailable path fault => s!"Failed to open {path}: {fault.message}"
  | .deviceFailed fault => s!"Write failed: {fault.message}"
  | .writeOnly path => s!"{path} is write-only; status cannot be read"
  | .file fault => fault.message
  | .namedFile path fault => s!"{path}: {fault.message}"

/-- The text of an error. -/
def message (e : Error) : String :=
  e.category.label ++ ": " ++ e.detail

end Error

end ReceiptPrinter
