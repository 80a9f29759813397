import ReceiptPrinter.Command.Control
import ReceiptPrinter.Error

/-! # Symbol commands — QR codes

    A symbol is set up, its data stored, and then printed.  Each command has its own
    length in front of its parameters. -/

namespace ReceiptPrinter

/-- How much of a symbol may be damaged. -/
inductive Correction where
  | l
  | m
  | q
  | h
deriving DecidableEq, Repr

/-- The number of a correction level in a command. -/
def Correction.code : Correction → UInt8
  | .l => 48
  | .m => 49
  | .q => 50
  | .h => 51

/-- The correction level of that letter. -/
def Correction.ofName? : String → Option Correction
  | "L" => some .l
  | "M" => some .m
  | "Q" => some .q
  | "H" => some .h
  | _ => none

/-- A command for QR symbols. -/
inductive Symbol where
  | model2
  | moduleSize (dots : UInt8)
  | correction (level : UInt8)
  | store (data : Bytes)
  | print
deriving DecidableEq, Repr

namespace Symbol

/-- The greatest length of the data of a symbol. -/
def maxLength : Nat := 65532

/-- What keeps a symbol command from being sent. -/
def fault? : Symbol → Option Error
  | .moduleSize dots =>
    if 1 ≤ dots && dots ≤ 16 then none else some (.outOfRange .moduleSize dots.toNat)
  | .correction level =>
    if 48 ≤ level && level ≤ 51 then none else some (.outOfRange .correctionLevel level.toNat)
  | .store data =>
    if maxLength < data.length then some (.outOfRange .symbolLength data.length) else none
  | _ => none

/-- The bytes of a symbol command. -/
def bytes : Symbol → Bytes
  | .model2 => [0x1D, 0x28, 0x6B, 0x04, 0x00, 0x31, 0x41, 0x32, 0x00]
  | .moduleSize dots => [0x1D, 0x28, 0x6B, 0x03, 0x00, 0x31, 0x43, dots]
  | .correction level => [0x1D, 0x28, 0x6B, 0x03, 0x00, 0x31, 0x45, level]
  | .store data =>
    [0x1D, 0x28, 0x6B] ++ word (UInt16.ofNat (data.length + 3)) ++ [0x31, 0x50, 0x30] ++ data
  | .print => [0x1D, 0x28, 0x6B, 0x03, 0x00, 0x31, 0x51, 0x30]

/-- The commands that print a symbol, from its setup on. -/
def whole (data : Bytes) (size level : UInt8) : List Symbol :=
  [.model2, .moduleSize size, .correction level, .store data, .print]

end Symbol

end ReceiptPrinter
