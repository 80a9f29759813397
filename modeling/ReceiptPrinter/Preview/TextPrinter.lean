import ReceiptPrinter.Error
import ReceiptPrinter.Preview.Event
import ReceiptPrinter.Profile
import ReceiptPrinter.Settings

/-! # Text printers — print jobs as text

    A text printer shows what a job prints, line by line.  Of the styles only the
    width can be seen, as repeated characters, and the alignment, as blanks in front
    of a line.  Bar codes, symbols, images and cuts are lines with a mark. -/

namespace ReceiptPrinter

/-- The styles that a text printer keeps. -/
structure TextStyle where
  bold : Bool := false
  underline : Bool := false
  invert : Bool := false
  side : Alignment := .left
  width : Nat := 1
  height : Nat := 1
deriving DecidableEq, Repr

/-- A printer that makes text. -/
structure TextPrinter where
  /-- The characters of a line. -/
  lineWidth : Nat
  style : TextStyle := {}
  /-- The line that is not finished yet. -/
  pending : String := ""
  /-- The finished lines. -/
  output : String := ""
  /-- The data of the symbol that was stored last. -/
  symbol? : Option Bytes := none
deriving DecidableEq, Repr

/-- The name of a bar code kind, in either form of the command. -/
def barcodeTitle (kind : UInt8) : String :=
  match kind with
  | 0 | 65 => "UPC-A"
  | 1 | 66 => "UPC-E"
  | 2 | 67 => "EAN13"
  | 3 | 68 => "EAN8"
  | 4 | 69 => "CODE39"
  | 5 | 70 => "ITF"
  | 6 | 71 => "CODABAR"
  | 72 => "CODE93"
  | 73 => "CODE128"
  | other => s!"Barcode{other.toNat}"

/-- The line of a cut. -/
def cutMark (full : Bool) : String :=
  if full then "-< full cut >-" else "-< cut >-"

/-- The line of a symbol. -/
def symbolMark : String := "[QRCode]"

/-- The line of an image. -/
def imageMark : String := "[IMAGE]"

/-- As many blanks. -/
def blanks (count : Nat) : String :=
  String.ofList (List.replicate count ' ')

namespace TextPrinter

/-- A printer of a width, which must not be zero. -/
def ofWidth (lineWidth : Nat) : Except Error TextPrinter :=
  if lineWidth = 0 then .error (.outOfRange .lineWidth 0) else .ok { lineWidth }

/-- The printer that is used when no width is given. -/
def standard : TextPrinter :=
  { lineWidth := ({} : PreviewSettings).lineWidth }

/-- A line with the blanks in front that its alignment asks for. -/
def aligned (p : TextPrinter) (line : String) : String :=
  let room := p.lineWidth - line.length
  match p.style.side with
  | .left => line
  | .center => blanks (room / 2) ++ line
  | .right => blanks room ++ line

/-- Finishes the line, be it empty. -/
def endLine (p : TextPrinter) : TextPrinter :=
  { p with pending := "", output := p.output ++ p.aligned p.pending ++ "\n" }

/-- Finishes the line if there is anything on it. -/
def flush (p : TextPrinter) : TextPrinter :=
  if p.pending = "" then p else p.endLine

/-- Adds a line of its own, not aligned. -/
def addLine (p : TextPrinter) (line : String) : TextPrinter :=
  { p with output := p.output ++ line ++ "\n" }

/-- Finishes the line if there is anything on it, and adds a line of its own. -/
def mark (p : TextPrinter) (line : String) : TextPrinter :=
  p.flush.addLine line

/-- Adds a line with the text of bytes, unless there are none. -/
def addData (p : TextPrinter) (data : Bytes) : TextPrinter :=
  if data.isEmpty then p else p.addLine (Utf8.lenient data)

/-- Adds text to the line. -/
def add (p : TextPrinter) (text : String) : TextPrinter :=
  { p with pending := p.pending ++ text }

/-- What an event does to a printer. -/
def apply (p : TextPrinter) : Event → TextPrinter
  | .skip => p
  | .reset => { p with style := {} }
  | .bold on => { p with style := { p.style with bold := on } }
  | .underline on => { p with style := { p.style with underline := on } }
  | .invert on => { p with style := { p.style with invert := on } }
  | .align side => { p with style := { p.style with side } }
  | .scale width height => { p with style := { p.style with width, height } }
  | .character c => p.add (String.ofList (List.replicate p.style.width c))
  | .tab => p.add (blanks 4)
  | .lineEnd => p.endLine
  | .formFeed => p.endLine.addLine ""
  | .blankLines count =>
    let p := p.flush
    { p with output := p.output ++ String.ofList (List.replicate count '\n') }
  | .cut full => p.mark (cutMark full)
  | .barcode kind data => (p.mark s!"[{barcodeTitle kind}]").addData data
  | .storeSymbol data => { p with symbol? := some data }
  | .printSymbol => (p.mark symbolMark).addData (p.symbol?.getD [])
  | .image => p.mark imageMark

/-- The bytes that a piece takes of those that follow its first one. -/
def taken (s : Scan) (rest : Bytes) : Nat :=
  match s with
  | .piece size _ => (rest.take (size - 1)).length
  | .truncated => rest.length

/-- The printer after a piece. -/
def after (p : TextPrinter) : Scan → TextPrinter
  | .piece _ event => p.apply event
  | .truncated => p

/-- The printer after some bytes, and how many of them it took beside those
    before. -/
def feedFrom (before : Nat) (p : TextPrinter) (bytes : Bytes) : TextPrinter × Nat :=
  match bytes with
  | [] => (p, before)
  | b :: rest =>
    let s := Event.scan b rest
    let size := taken s rest
    feedFrom (before + (size + 1)) (p.after s) (rest.drop size)
termination_by bytes.length
decreasing_by simp only [List.length_cons, List.length_drop]; omega

/-- The printer after some bytes, and how many of them it took. -/
def feed (p : TextPrinter) (bytes : Bytes) : TextPrinter × Nat :=
  feedFrom 0 p bytes

/-- All that was printed, with the line that is not finished. -/
def finish (p : TextPrinter) : String :=
  p.flush.output

/-- The text of a print job on lines of a width. -/
def decode (bytes : Bytes) (lineWidth : Nat) : Except Error String :=
  (ofWidth lineWidth).map fun p => (p.feed bytes).1.finish

end TextPrinter

end ReceiptPrinter
