/-! # Faults of a bitmap file — why it is refused

    Why a BMP file is refused.  Each is found before any output exists. -/

namespace ReceiptPrinter

/-- The two run-length encodings of a bitmap file. -/
inductive RunLength where
  | rle8
  | rle4
deriving DecidableEq, Repr

namespace RunLength

/-- The bits of a pixel under a run-length encoding. -/
def bits : RunLength → Nat
  | .rle8 => 8
  | .rle4 => 4

/-- The name of a run-length encoding. -/
def name : RunLength → String
  | .rle8 => "RLE8"
  | .rle4 => "RLE4"

end RunLength

/-- Why a bitmap file is refused. -/
inductive BitmapFault where
  | tooSmall (size : Nat)
  | badSignature
  | unsupportedHeader (size : Nat)
  | unsupportedPlanes (count : Nat)
  | unsupportedBitDepth (bits : Nat)
  | unsupportedCompression (code : Nat)
  | compressionMismatch (encoding : RunLength) (bits : Nat)
  | invalidWidth (width : Int)
  | zeroHeight
  | widthTooLarge (width limit : Nat)
  | heightTooLarge (height limit : Nat)
  | payloadTooLarge (size : Nat)
  | truncatedPalette
  | invalidPixelOffset (offset : Nat)
  | truncatedPixelData
deriving DecidableEq, Repr

/-- The text of a fault. -/
def BitmapFault.message : BitmapFault → String
  | .tooSmall size => s!"BMP data too small ({size} bytes, need at least 54)"
  | .badSignature => "not a BMP (missing BM signature)"
  | .unsupportedHeader size => s!"unsupported DIB header size {size} (need at least 40)"
  | .unsupportedPlanes count => s!"unsupported plane count {count}"
  | .unsupportedBitDepth bits =>
    s!"unsupported bit depth {bits}bpp (supported: 1, 4, 8, 16, 24, 32)"
  | .unsupportedCompression code =>
    s!"unsupported compression {code} (supported: 0 none, 1 RLE8, 2 RLE4)"
  | .compressionMismatch encoding bits =>
    s!"{encoding.name} compression requires {encoding.bits}bpp, got {bits}bpp"
  | .invalidWidth width => s!"width must be positive, got {width}"
  | .zeroHeight => "height must be non-zero"
  | .widthTooLarge width limit => s!"width {width} exceeds the {limit} dot limit"
  | .heightTooLarge height limit => s!"height {height} exceeds the {limit} dot limit"
  | .payloadTooLarge size => s!"graphics payload of {size} bytes does not fit a 16-bit length"
  | .truncatedPalette => "palette data is truncated"
  | .invalidPixelOffset offset => s!"pixel data offset {offset} is outside the file"
  | .truncatedPixelData => "pixel data is truncated"

end ReceiptPrinter
