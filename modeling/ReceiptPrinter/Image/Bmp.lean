import ReceiptPrinter.Command.Basic
import ReceiptPrinter.Image.BmpColor
import ReceiptPrinter.Image.RunLength

/-! # BMP files — transcoding and printing

    A BMP file becomes a bitmap of the same size in which every dark pixel is a black
    dot.  Printing one stores the bitmap in the printer and then prints it. -/

namespace ReceiptPrinter.Bmp

/-- The canvas that the run-length data of a file paint. -/
def Header.canvas (h : Header) (e : RunLength) (data : Array UInt8) (start : Nat) : Canvas :=
  (Canvas.blank h.width h.height).follow e (data.toList.drop start)

/-- The image of a file whose pixels are run-length encoded. -/
def Header.runLengthImage (h : Header) (e : RunLength) (data : Array UInt8)
    (palette : Array Color) : Except BitmapFault Bitmap := do
  let start ← h.pixelStart data
  let canvas := h.canvas e data start
  .ok (Bitmap.ofDots h.width h.height fun x y =>
    (paletteColor palette (canvas.cell x (h.storedRow y)).toNat).isDark)

/-- The bitmap of a file for a printer. -/
def transcodeFor (profile : Profile) (data : Array UInt8) : Except BitmapFault Bitmap := do
  let h ← Header.read profile data
  let palette ← h.palette data
  match h.runLength with
  | none => h.plainImage data palette
  | some e => h.runLengthImage e data palette

/-- The bitmap of a file for the printer that is assumed. -/
def transcode (data : Array UInt8) : Except BitmapFault Bitmap :=
  transcodeFor .tmT20 data

/-- The commands that store a bitmap and print it. -/
def printCommands (image : Bitmap) (function : UInt8) : List Command :=
  [.graphics (.store image Graphics.firstColor), .graphics (.printStored function)]

/-- The bytes that print a file.  The function code is looked at first, then the
    file. -/
def print (data : Array UInt8) (function : UInt8) : Except Error Bytes :=
  match Graphics.functionFault? function with
  | some e => .error e
  | none =>
    match transcode data with
    | .error fault => .error (.bitmap fault)
    | .ok image => Command.encodeAll (printCommands image function)

end ReceiptPrinter.Bmp
