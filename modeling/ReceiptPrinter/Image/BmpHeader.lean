import ReceiptPrinter.Image.Bitmap
import ReceiptPrinter.Image.Fault
import ReceiptPrinter.Profile

/-! # Headers of BMP files — how the pixels are stored

    The fields of a bitmap file that say how its pixels are stored.  They are checked
    in a fixed order, and the first check that fails is the fault of the file. -/

namespace ReceiptPrinter.Bmp

/-- The byte at an offset, zero past the end. -/
def byteAt (data : Array UInt8) (offset : Nat) : Nat :=
  (data.getD offset 0).toNat

/-- The word of two bytes at an offset. -/
def wordAt (data : Array UInt8) (offset : Nat) : Nat :=
  byteAt data offset + 256 * byteAt data (offset + 1)

/-- The word of four bytes at an offset. -/
def longAt (data : Array UInt8) (offset : Nat) : Nat :=
  wordAt data offset + 65536 * wordAt data (offset + 2)

/-- The word of four bytes at an offset as a signed number. -/
def signedAt (data : Array UInt8) (offset : Nat) : Int :=
  let n := longAt data offset
  if n < 2147483648 then (n : Int) else (n : Int) - 4294967296

/-- What the decoder has to know of a file. -/
structure Header where
  pixelOffset : Nat
  size : Nat
  width : Nat
  height : Nat
  /-- Whether the first row stored is the top one. -/
  topDown : Bool
  /-- The bits of a pixel. -/
  bits : Nat
  /-- How runs of pixels are encoded, if they are. -/
  runLength : Option RunLength
deriving DecidableEq, Repr

/-- The fields as they stand in a file, unchecked. -/
def Header.fields (data : Array UInt8) : Header where
  pixelOffset := longAt data 10
  size := longAt data 14
  width := (signedAt data 18).toNat
  height := (signedAt data 22).natAbs
  topDown := decide (signedAt data 22 < 0)
  bits := wordAt data 28
  runLength := match longAt data 30 with
    | 1 => some .rle8
    | 2 => some .rle4
    | _ => none

/-- The length of the stored graphics that an image becomes. -/
def Header.payload (h : Header) : Nat :=
  10 + rowBytes h.width * h.height

/-- The bit depths that can be read. -/
def depths : List Nat := [1, 4, 8, 16, 24, 32]

/-- The fault of a run-length encoding that does not fit the bits of a pixel. -/
def Header.mismatch? (h : Header) : Option BitmapFault :=
  h.runLength.bind fun e => if e.bits = h.bits then none else some (.compressionMismatch e h.bits)

/-- The fault of a condition that must not hold. -/
def faultIf (condition : Bool) (fault : BitmapFault) : Option BitmapFault :=
  if condition then some fault else none

/-- The checks of a header, in their order. -/
def Header.checks (profile : Profile) (data : Array UInt8) : List (Option BitmapFault) :=
  let h := Header.fields data
  let planes := wordAt data 26
  let compression := longAt data 30
  [ faultIf (data.size < 54) (.tooSmall data.size)
  , faultIf (wordAt data 0 != 0x4D42) .badSignature
  , faultIf (h.size < 40) (.unsupportedHeader h.size)
  , faultIf (planes != 1) (.unsupportedPlanes planes)
  , faultIf (!depths.contains h.bits) (.unsupportedBitDepth h.bits)
  , faultIf (2 < compression) (.unsupportedCompression compression)
  , h.mismatch?
  , faultIf (signedAt data 18 ≤ 0) (.invalidWidth (signedAt data 18))
  , faultIf (h.height == 0) .zeroHeight
  , faultIf (profile.maxWidth < h.width) (.widthTooLarge h.width profile.maxWidth)
  , faultIf (profile.maxHeight < h.height) (.heightTooLarge h.height profile.maxHeight)
  , faultIf (65535 < h.payload) (.payloadTooLarge h.payload) ]

/-- The first fault that some check finds. -/
def firstFault (checks : List (Option BitmapFault)) : Option BitmapFault :=
  checks.findSome? id

/-- No fault is found exactly when every check passes. -/
theorem firstFault_eq_none_iff (checks : List (Option BitmapFault)) :
    firstFault checks = none ↔ ∀ check ∈ checks, check = none := by
  simp [firstFault, List.findSome?_eq_none_iff]

/-- The header of a file for a printer. -/
def Header.read (profile : Profile) (data : Array UInt8) : Except BitmapFault Header :=
  match firstFault (Header.checks profile data) with
  | some fault => .error fault
  | none => .ok (Header.fields data)

/-- The stored row of an image row. -/
def Header.storedRow (h : Header) (y : Nat) : Nat :=
  if h.topDown then y else h.height - 1 - y

/-- The bytes of a stored row, which fills words of four bytes. -/
def Header.rowStride (h : Header) : Nat :=
  (h.width * h.bits + 31) / 32 * 4

end ReceiptPrinter.Bmp
