import ReceiptPrinter.Error
import ReceiptPrinter.Text.Letters
import ReceiptPrinter.Text.Utf8

/-! # Bar code commands — kinds and their two forms

    A bar code is printed in one of two forms: the kinds up to 6 end their data with
    a NUL, all others put its length in front. -/

namespace ReceiptPrinter

/-- A symbology. -/
inductive BarcodeKind where
  | upcA
  | upcE
  | ean13
  | ean8
  | code39
  | itf
  | codabar
  | code93
  | code128
deriving DecidableEq, Repr

/-- The number of a symbology in the form with a length. -/
def BarcodeKind.code : BarcodeKind → UInt8
  | .upcA => 65
  | .upcE => 66
  | .ean13 => 67
  | .ean8 => 68
  | .code39 => 69
  | .itf => 70
  | .codabar => 71
  | .code93 => 72
  | .code128 => 73

/-- The symbologies by name, in the order in which they are listed. -/
def barcodeKinds : List (String × BarcodeKind) := [
  ("upca", .upcA), ("upce", .upcE), ("ean13", .ean13), ("ean8", .ean8), ("code39", .code39),
  ("itf", .itf), ("codabar", .codabar), ("code93", .code93), ("code128", .code128)]

/-- The symbology of that name, in any letter case. -/
def BarcodeKind.ofName? (name : String) : Option BarcodeKind :=
  (barcodeKinds.find? fun entry => Text.sameName entry.1 name).map Prod.snd

/-- Where the readable text of a bar code stands. -/
inductive TextPosition where
  | none
  | above
  | below
  | both
deriving DecidableEq, Repr

/-- The number of a text position in a command. -/
def TextPosition.code : TextPosition → UInt8
  | .none => 0
  | .above => 1
  | .below => 2
  | .both => 3

/-- The text position of that name. -/
def TextPosition.ofName? : String → Option TextPosition
  | "none" => some .none
  | "above" => some .above
  | "below" => some .below
  | "both" => some .both
  | _ => Option.none

/-- A bar code command. -/
inductive Barcode where
  | height (dots : UInt8)
  | width (dots : UInt8)
  | text (position : TextPosition)
  | font (code : UInt8)
  | print (kind : UInt8) (data : Bytes)
deriving DecidableEq, Repr

namespace Barcode

/-- What keeps a bar code command from being sent. -/
def fault? : Barcode → Option Error
  | .print kind data =>
    if kind ≤ 6 then
      if data.contains 0 then some .barcodeTerminator else none
    else if 255 < data.length then some (.outOfRange .barcodeLength data.length)
    else none
  | _ => none

/-- The bytes of a bar code command. -/
def bytes : Barcode → Bytes
  | .height dots => [0x1D, 0x68, dots]
  | .width dots => [0x1D, 0x77, dots]
  | .text position => [0x1D, 0x48, position.code]
  | .font code => [0x1D, 0x66, code]
  | .print kind data =>
    if kind ≤ 6 then [0x1D, 0x6B, kind] ++ data ++ [0]
    else [0x1D, 0x6B, kind, UInt8.ofNat data.length] ++ data

end Barcode

end ReceiptPrinter
