import ReceiptPrinter.Image.BmpHeader

/-! # Colours of a BMP file — what is black

    The palette of a file, the pixels stored without run lengths, and the threshold
    that makes a colour black or white. -/

namespace ReceiptPrinter.Bmp

/-- A colour by its three parts. -/
structure Color where
  red : Nat
  green : Nat
  blue : Nat
deriving DecidableEq, Repr

/-- The colour with all parts zero. -/
def Color.black : Color := ⟨0, 0, 0⟩

/-- Whether a colour prints as a black dot: its luminance in whole numbers is under
    128. -/
def Color.isDark (c : Color) : Bool :=
  (30 * c.red + 59 * c.green + 11 * c.blue) / 100 < 128

/-- The colour stored as blue, green and red at an offset. -/
def colorAt (data : Array UInt8) (offset : Nat) : Color :=
  ⟨byteAt data (offset + 2), byteAt data (offset + 1), byteAt data offset⟩

/-- Where the palette of a file starts. -/
def Header.paletteStart (h : Header) : Nat :=
  14 + h.size

/-- How many colours the palette of a file has. -/
def Header.paletteSize (h : Header) : Nat :=
  if h.bits ≤ 8 then Nat.pow 2 h.bits else 0

/-- The palette of a file; files with direct colours have an empty one. -/
def Header.palette (h : Header) (data : Array UInt8) : Except BitmapFault (Array Color) :=
  if data.size < h.paletteStart + 4 * h.paletteSize ∧ h.bits ≤ 8 then .error .truncatedPalette
  else .ok (Array.ofFn fun i : Fin h.paletteSize => colorAt data (h.paletteStart + 4 * i))

/-- A colour of the palette. -/
def paletteColor (palette : Array Color) (index : Nat) : Color :=
  palette.getD index .black

/-- The colour of five bits each for red, green and blue. -/
def fiveBitColor (n : Nat) : Color :=
  let expand (v : Nat) := v % 32 * 255 / 31
  ⟨expand (n / 1024), expand (n / 32), expand n⟩

/-- The palette index of a pixel whose row starts at `row`. -/
def indexAt (data : Array UInt8) (bits row x : Nat) : Nat :=
  match bits with
  | 1 => byteAt data (row + x / 8) / Nat.pow 2 (7 - x % 8) % 2
  | 4 => byteAt data (row + x / 2) / Nat.pow 16 (1 - x % 2) % 16
  | _ => byteAt data (row + x)

/-- The colour of a pixel whose row starts at `row`. -/
def pixelAt (data : Array UInt8) (palette : Array Color) (bits row x : Nat) : Color :=
  match bits with
  | 16 => fiveBitColor (wordAt data (row + 2 * x))
  | 24 => colorAt data (row + 3 * x)
  | 32 => colorAt data (row + 4 * x)
  | _ => paletteColor palette (indexAt data bits row x)

/-- Where the pixels of a file start. -/
def Header.pixelStart (h : Header) (data : Array UInt8) : Except BitmapFault Nat :=
  if data.size < h.pixelOffset then .error (.invalidPixelOffset h.pixelOffset)
  else .ok h.pixelOffset

/-- The image of a file whose pixels are stored without run lengths. -/
def Header.plainImage (h : Header) (data : Array UInt8) (palette : Array Color) :
    Except BitmapFault Bitmap := do
  let start ← h.pixelStart data
  if data.size < start + h.rowStride * h.height then .error .truncatedPixelData
  else .ok (Bitmap.ofDots h.width h.height fun x y =>
    (pixelAt data palette h.bits (start + h.storedRow y * h.rowStride) x).isDark)

end ReceiptPrinter.Bmp
