import ReceiptPrinter.Preview.TextPrinter
import ReceiptPrinter.Proofs.Markup.Grammar
import ReceiptPrinter.Proofs.Preview.Legible
import ReceiptPrinter.Receipt.Compile

/-! # Sheets — receipts drawn from their trees

    What a receipt looks like as text can be said without a print job.  A sheet
    has finished lines, a line that is being written, an alignment, a width of
    characters and the text of the last QR symbol; `Sheet.node` walks the markup
    and writes on it.  No byte and no command occurs in this file. -/

namespace ReceiptPrinter

open Markup (Node Element directText)

/-- A text that is being written line by line. -/
structure Sheet where
  /-- The characters of a line. -/
  lineWidth : Nat
  side : Alignment := .left
  /-- How often each character is repeated. -/
  scale : Nat := 1
  /-- The line that is being written. -/
  pending : String := ""
  /-- The finished lines. -/
  output : String := ""
  /-- The text of the last QR symbol. -/
  symbol : String := ""

namespace Sheet

/-! ## Writing -/

/-- The blanks in front of the line that is being written. -/
def indent (s : Sheet) : Nat :=
  match s.side with
  | .left => 0
  | .center => (s.lineWidth - s.pending.length) / 2
  | .right => s.lineWidth - s.pending.length

/-- Finishes the line. -/
def endLine (s : Sheet) : Sheet :=
  { s with pending := "", output := s.output ++ (blanks s.indent ++ s.pending) ++ "\n" }

/-- Finishes the line if there is anything on it. -/
def flush (s : Sheet) : Sheet :=
  if s.pending = "" then s else s.endLine

/-- Adds lines that are not indented, each after what is on the sheet. -/
def addLines (s : Sheet) (lines : List String) : Sheet :=
  lines.foldl (fun s line => { s with output := s.output ++ line ++ "\n" }) s

/-- Adds a line with a mark, and one with the data that go with it if there are
    any. -/
def mark (s : Sheet) (line data : String) : Sheet :=
  s.flush.addLines (line :: if data = "" then [] else [data])

/-- Writes a character.  A tab is four blanks whatever the scale; of the control
    characters only those that end lines do anything else. -/
def put (s : Sheet) (c : Char) : Sheet :=
  if c = '\t' then { s with pending := s.pending ++ blanks 4 }
  else if c = '\n' then s.endLine
  else if c = '\x0c' then s.endLine.addLines [""]
  else if c.toNat < 32 ∨ c.toNat = 127 then s
  else { s with pending := s.pending ++ String.ofList (List.replicate s.scale c) }

/-- Writes a text in an encoding. -/
def write (s : Sheet) (e : Encoding) (text : String) : Sheet :=
  text.toList.foldl (fun s c => s.put (e.shown c)) s

end Sheet

/-! ## Reading tags -/

namespace Tag

/-- The number in an attribute, as the vocabulary reads it. -/
def numberIn? (t : Tag) (attr : String) : Option Nat :=
  (t.integer? attr).map Int.toNat

/-- The symbology of a bar code. -/
def symbology (t : Tag) : BarcodeKind :=
  ((t.attributes.get? "type").bind BarcodeKind.ofName?).getD .code128

/-- The alignment of the lines in an element. -/
def side (t : Tag) : Alignment :=
  ((t.attributes.get? "value").bind Alignment.ofName?).getD .left

variable {o : Type}

/-- The context of one item of an element's loop. -/
def inner (t : Tag) (c : Option (Context o)) (item : ValueOf o) : Option (Context o) :=
  c.map fun c => c.pushScope.bind (t.value "var") item

variable [Members o]

/-- Whether the condition of an element holds. -/
def holds (t : Tag) (c : Option (Context o)) : Bool :=
  ((c.bind fun c => c.get? (t.value "condition")).map ValueOf.isTruthy).getD false

theorem holds_some (t : Tag) (c : Context o) :
    t.holds (some c) = (c.get? (t.value "condition")).any ValueOf.isTruthy := by
  rw [Tag.holds, Option.bind_some]
  cases c.get? (t.value "condition") <;> rfl

/-- The items of an element's loop. -/
def items (t : Tag) (c : Option (Context o)) : List (ValueOf o) :=
  ((c.bind fun c => c.get? (t.value "in")).bind ValueOf.items?).getD []

end Tag

/-- The name of a symbology as it is shown. -/
def BarcodeKind.title : BarcodeKind → String
  | .upcA => "UPC-A"
  | .upcE => "UPC-E"
  | .ean13 => "EAN13"
  | .ean8 => "EAN8"
  | .code39 => "CODE39"
  | .itf => "ITF"
  | .codabar => "CODABAR"
  | .code93 => "CODE93"
  | .code128 => "CODE128"

/-! ## Drawing -/

namespace Sheet

variable {o : Type} [Members o]

/-- Draws an element, given its own text and how its content is drawn. -/
def element (e : Encoding) (t : Tag) (text : String)
    (content : Option (Context o) → Sheet → Sheet) (c : Option (Context o)) (s : Sheet) : Sheet :=
  match t.name with
  | "text" => s.write e (fill c text)
  | "line" => (s.write e (fill c text)).endLine
  | "if" => if t.holds c then content c s else s
  | "for" => (t.items c).foldl (fun s item => content (t.inner c item) s) s
  | "align" => { content c { s with side := t.side } with side := .left }
  | "size" =>
    { content c { s with scale := (t.numberIn? "width").getD 1 } with scale := 1 }
  | "initialize" => { s with side := .left, scale := 1 }
  | "feed" =>
    match t.numberIn? "lines" with
    | some count => s.flush.addLines (List.replicate count "")
    | none => s
  | "cut" =>
    s.mark (if t.attributes.get? "type" = some "full" then "-< full cut >-" else "-< cut >-") ""
  | "qrcode" =>
    let data := fill c (t.value "data")
    { s with symbol := data }.mark "[QRCode]" data
  | "barcode" =>
    let data := (fill c (t.value "data")).toList.map Encoding.ascii.shown
    s.mark ("[" ++ t.symbology.title ++ "]") (String.ofList data)
  | "image" => s.mark "[IMAGE]" ""
  | "drawer" | "beep" | "spacing" | "margin" | "codepage" => s
  | _ => content c s

mutual

/-- Draws a child in the encoding around it.  Text that is all blank is left out. -/
def node (e : Encoding) : Node → Option (Context o) → Sheet → Sheet
  | .text content => fun c s =>
    if Text.allBlank content then s else s.write e (fill c content)
  | .element name attributes children =>
    let e := (Walk.encodingOf e attributes).toOption.getD e
    element e ⟨name, attributes⟩ (directText children) (nodes e children)

/-- Draws children one after the other. -/
def nodes (e : Encoding) : List Node → Option (Context o) → Sheet → Sheet
  | [] => fun _ s => s
  | child :: rest => fun c s => nodes e rest c (node e child c s)

end

end Sheet

/-- The text of a receipt, drawn from its tree. -/
def Settings.render {o : Type} [Members o] (s : Settings) (root : Element)
    (c : Option (Context o)) (lineWidth : Nat) : String :=
  let e := (Encoding.ofName s.encoding).toOption.getD .ascii
  (Sheet.node e root.toNode c { lineWidth }).flush.output

end ReceiptPrinter
