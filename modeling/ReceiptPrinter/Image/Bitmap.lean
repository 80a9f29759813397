import ReceiptPrinter.Text.Utf8

/-! # Bitmaps — images of black and white dots

    A row takes whole bytes, its leftmost dot in the highest bit of the first one; a
    set bit is a black dot, and the bits past the width stay clear. -/

namespace ReceiptPrinter

/-- The bytes of a row of so many dots. -/
def rowBytes (width : Nat) : Nat :=
  (width + 7) / 8

/-- The bit of a dot within its byte. -/
def dotBit (x : Nat) : UInt8 :=
  0x80 >>> UInt8.ofNat (x % 8)

/-- An image of black and white dots, top row first. -/
structure Bitmap where
  width : Nat
  height : Nat
  data : Array UInt8
  size_data : data.size = rowBytes width * height
deriving DecidableEq

namespace Bitmap

/-- An image without black dots. -/
def blank (width height : Nat) : Bitmap where
  width := width
  height := height
  data := Array.replicate (rowBytes width * height) 0
  size_data := by simp

/-- The bytes of a row. -/
def stride (b : Bitmap) : Nat :=
  rowBytes b.width

/-- The place of a dot's byte. -/
def place (b : Bitmap) (x y : Nat) : Nat :=
  y * b.stride + x / 8

/-- Makes a dot black; one outside the image is left out. -/
def setBlack (b : Bitmap) (x y : Nat) : Bitmap :=
  if x < b.width ∧ y < b.height then
    { b with
      data := b.data.modify (b.place x y) (· ||| dotBit x)
      size_data := by rw [Array.size_modify]; exact b.size_data }
  else b

/-- The byte of eight dots, the first of them in the highest bit. -/
def packByte (black : Nat → Bool) : UInt8 :=
  (List.range 8).foldl (fun byte k => if black k then byte ||| dotBit k else byte) 0

/-- The image of the dots that a predicate picks. -/
def ofDots (width height : Nat) (black : Nat → Nat → Bool) : Bitmap where
  width := width
  height := height
  data := Array.ofFn fun i : Fin (rowBytes width * height) =>
    packByte fun k =>
      let x := i % rowBytes width * 8 + k
      decide (x < width) && black x (i / rowBytes width)
  size_data := by simp

/-- The rows of an image as bytes. -/
def bytes (b : Bitmap) : Bytes :=
  b.data.toList

theorem length_bytes (b : Bitmap) : b.bytes.length = rowBytes b.width * b.height := by
  simp [bytes, b.size_data]

end Bitmap

end ReceiptPrinter
