import ReceiptPrinter.Command.Barcode
import ReceiptPrinter.Command.Control
import ReceiptPrinter.Command.Graphics
import ReceiptPrinter.Command.Style
import ReceiptPrinter.Command.Symbol
import ReceiptPrinter.Text.Encoding

/-! # Commands — all that a printer can be sent

    A print job is a sequence of commands.  `Command.encode` gives the bytes of one,
    or the reason why it cannot be sent. -/

namespace ReceiptPrinter

/-- A command to a printer, or text to print. -/
inductive Command where
  | control (c : Control)
  | style (s : Style)
  | text (e : Encoding) (s : String)
  | line (e : Encoding) (s : String)
  | barcode (b : Barcode)
  | symbol (s : Symbol)
  | graphics (g : Graphics)
deriving DecidableEq

namespace Command

/-- What keeps a command from being sent. -/
def fault? : Command → Option Error
  | .style s => s.fault?
  | .barcode b => b.fault?
  | .symbol s => s.fault?
  | .graphics g => g.fault?
  | _ => none

/-- The bytes of a command. -/
def bytes : Command → Bytes
  | .control c => c.bytes
  | .style s => s.bytes
  | .text e s => e.encode s
  | .line e s => e.encode s ++ [0x0A]
  | .barcode b => b.bytes
  | .symbol s => s.bytes
  | .graphics g => g.bytes

/-- The bytes of a command that can be sent. -/
def encode (c : Command) : Except Error Bytes :=
  match c.fault? with
  | some e => .error e
  | none => .ok c.bytes

/-- The bytes of commands one after the other, or the error of the first that cannot
    be sent. -/
def encodeAll : List Command → Except Error Bytes
  | [] => .ok []
  | c :: rest =>
    match c.encode, encodeAll rest with
    | .error e, _ => .error e
    | .ok _, .error e => .error e
    | .ok a, .ok b => .ok (a ++ b)

/-- The commands that print a QR symbol, from its setup on. -/
def wholeSymbol (data : Bytes) (size level : UInt8) : List Command :=
  (Symbol.whole data size level).map .symbol

/-- Commands that can all be sent are sent byte for byte in their order. -/
theorem encodeAll_eq_ok (cs : List Command) (h : ∀ c ∈ cs, c.fault? = none) :
    encodeAll cs = .ok (cs.flatMap bytes) := by
  induction cs with
  | nil => rfl
  | cons c rest ih =>
    have hc : c.fault? = none := h c (by simp)
    have hr := ih fun d hd => h d (by simp [hd])
    simp [encodeAll, encode, hc, hr]

end Command

end ReceiptPrinter
