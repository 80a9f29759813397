import ReceiptPrinter.Text.Utf8

/-! # Control commands — paper, positions, drawer, buzzer and status

    Each command is a value; `bytes` is what the printer is sent for it. -/

namespace ReceiptPrinter

/-- The two bytes of a word, the low one first. -/
def word (n : UInt16) : Bytes :=
  [n.toUInt8, (n >>> 8).toUInt8]

/-- How far the paper is cut. -/
inductive Cut where
  | full
  | part
deriving DecidableEq, Repr

/-- The connector pin that opens a cash drawer. -/
inductive DrawerPin where
  | pin2
  | pin5
deriving DecidableEq, Repr

/-- The number of a drawer pin in a command. -/
def DrawerPin.code : DrawerPin → UInt8
  | .pin2 => 0
  | .pin5 => 1

/-- How long a drawer pulse is on when nothing else is asked. -/
def drawerOnTime : UInt8 := 120

/-- How long the pause after a drawer pulse is when nothing else is asked. -/
def drawerOffTime : UInt8 := 240

/-- A command for the paper, the print position or a device at the printer. -/
inductive Control where
  | reset
  | lineFeeds (count : Nat)
  | tab
  | carriageReturn
  | formFeed
  | printLine
  | absolutePosition (dots : UInt16)
  | relativePosition (dots : UInt16)
  | relativePositionSigned (dots : Int8)
  | leftMargin (dots : UInt16)
  | feedLines (lines : UInt8)
  | feedDots (dots : UInt8)
  | cut (kind : Cut)
  | feedAndCut (kind : Cut) (dots : UInt8)
  | drawerPulse (pin onTime offTime : UInt8)
  | beep (times duration : UInt8)
  | status (kind : UInt8)
  | realTimeStatus (kind : UInt8)
  | realTimeRequest (kind : UInt8)
deriving DecidableEq, Repr

namespace Control

/-- The bytes of a control command. -/
def bytes : Control → Bytes
  | .reset => [0x1B, 0x40]
  | .lineFeeds count => List.replicate count 0x0A
  | .tab => [0x09]
  | .carriageReturn => [0x0D]
  | .formFeed => [0x0C]
  | .printLine => [0x1B, 0x0A]
  | .absolutePosition dots => [0x1B, 0x24] ++ word dots
  | .relativePosition dots => [0x1B, 0x5C] ++ word dots
  | .relativePositionSigned dots => [0x1B, 0x5C, dots.toUInt8, 0x00]
  | .leftMargin dots => [0x1D, 0x4C] ++ word dots
  | .feedLines lines => [0x1B, 0x64, lines]
  | .feedDots dots => [0x1B, 0x4A, dots]
  | .cut .full => [0x1D, 0x56, 0x00]
  | .cut .part => [0x1D, 0x56, 0x01]
  | .feedAndCut .full dots => [0x1D, 0x56, 0x41, dots]
  | .feedAndCut .part dots => [0x1D, 0x56, 0x42, dots]
  | .drawerPulse pin onTime offTime => [0x1B, 0x70, pin, onTime, offTime]
  | .beep times duration => [0x1B, 0x42, times, duration]
  | .status kind => [0x1D, 0x72, kind]
  | .realTimeStatus kind => [0x10, 0x04, kind]
  | .realTimeRequest kind => [0x10, 0x05, kind]

end Control

end ReceiptPrinter
