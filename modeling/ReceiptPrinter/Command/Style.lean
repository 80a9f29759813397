import ReceiptPrinter.Error
import ReceiptPrinter.Text.Utf8

/-! # Style commands — how characters are printed

    Alignment, fonts, emphasis, sizes, spacing and character tables.  Only the
    character size has a range that its byte cannot hold. -/

namespace ReceiptPrinter

/-- Where a line stands on the paper. -/
inductive Alignment where
  | left
  | center
  | right
deriving DecidableEq, Repr

/-- The number of an alignment in a command. -/
def Alignment.code : Alignment → UInt8
  | .left => 0
  | .center => 1
  | .right => 2

/-- The alignment of that name. -/
def Alignment.ofName? : String → Option Alignment
  | "left" => some .left
  | "center" => some .center
  | "right" => some .right
  | _ => none

/-- One of the two built-in fonts. -/
inductive Font where
  | a
  | b
deriving DecidableEq, Repr

/-- The number of a font in a command. -/
def Font.code : Font → UInt8
  | .a => 0
  | .b => 1

/-- The font of that name. -/
def Font.ofName? : String → Option Font
  | "A" => some .a
  | "B" => some .b
  | _ => none

/-- The character tables of the printer and their numbers. -/
def codePages : List (String × UInt8) := [
  ("Cp437", 0), ("Katakana", 1), ("Cp850", 2), ("Cp860", 3), ("Cp863", 4), ("Cp865", 5),
  ("Cp1252", 16), ("Cp866", 17), ("Cp852", 18), ("Cp858", 19), ("Thai42", 20), ("Thai11", 21),
  ("Thai13", 22), ("Thai14", 23), ("Thai16", 24), ("Thai17", 25), ("Thai18", 26), ("Cp874", 30),
  ("Cp1250", 48), ("Cp1251", 49), ("Cp1253", 50), ("Cp1254", 51), ("Cp1255", 52), ("Cp1256", 53),
  ("Cp1257", 54), ("Cp1258", 55), ("Utf8", 255)]

/-- A command for the look of the characters that follow. -/
inductive Style where
  | align (side : Alignment)
  | font (f : Font)
  | bold (on : Bool)
  | doubleStrike (on : Bool)
  | underline (mode : UInt8)
  | invert (on : Bool)
  | size (width height : UInt8)
  | normalSize
  | rotate (on : Bool)
  | characterSpacing (dots : UInt8)
  | lineSpacing (dots : UInt8)
  | defaultLineSpacing
  | printMode (mode : UInt8)
  | smoothing (on : Bool)
  | codePage (table : UInt8)
  | characterSet (country : UInt8)
deriving DecidableEq, Repr

/-- The byte of a switch. -/
def switch (on : Bool) : UInt8 :=
  if on then 1 else 0

namespace Style

/-- What keeps a style command from being sent. -/
def fault? : Style → Option Error
  | .size width height =>
    if !(1 ≤ width && width ≤ 8) then some (.outOfRange .characterWidth width.toNat)
    else if !(1 ≤ height && height ≤ 8) then some (.outOfRange .characterHeight height.toNat)
    else none
  | _ => none

/-- The bytes of a style command. -/
def bytes : Style → Bytes
  | .align side => [0x1B, 0x61, side.code]
  | .font f => [0x1B, 0x4D, f.code]
  | .bold on => [0x1B, 0x45, switch on]
  | .doubleStrike on => [0x1B, 0x47, switch on]
  | .underline mode => [0x1B, 0x2D, mode]
  | .invert on => [0x1D, 0x42, switch on]
  | .size width height => [0x1D, 0x21, (height - 1) * 16 + (width - 1)]
  | .normalSize => [0x1D, 0x21, 0x00]
  | .rotate on => [0x1B, 0x56, switch on]
  | .characterSpacing dots => [0x1B, 0x20, dots]
  | .lineSpacing dots => [0x1B, 0x33, dots]
  | .defaultLineSpacing => [0x1B, 0x32]
  | .printMode mode => [0x1B, 0x21, mode]
  | .smoothing on => [0x1D, 0x62, switch on]
  | .codePage table => [0x1B, 0x74, table]
  | .characterSet country => [0x1B, 0x52, country]

end Style

end ReceiptPrinter
