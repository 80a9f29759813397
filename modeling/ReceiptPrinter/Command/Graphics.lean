import ReceiptPrinter.Command.Control
import ReceiptPrinter.Error
import ReceiptPrinter.Image.Bitmap

/-! # Graphics commands — raster images and stored graphics

    A raster image is printed at once.  Stored graphics are first put into the
    printer's buffer and then printed by a second command. -/

namespace ReceiptPrinter

/-- How the dots of a raster image are scaled. -/
inductive RasterScale where
  | normal
  | doubleWidth
  | doubleHeight
  | quadruple
deriving DecidableEq, Repr

/-- The number of a scale in a command. -/
def RasterScale.code : RasterScale → UInt8
  | .normal => 0
  | .doubleWidth => 1
  | .doubleHeight => 2
  | .quadruple => 3

/-- A graphics command. -/
inductive Graphics where
  | raster (data : Bytes) (widthBytes height : UInt16) (scale : RasterScale)
  | store (image : Bitmap) (color : UInt8)
  | printStored (function : UInt8)
deriving DecidableEq

namespace Graphics

/-- The colour of graphics on a printer of one colour. -/
def firstColor : UInt8 := 0x31

/-- The bytes of stored graphics that are no image data. -/
def storeOverhead : Nat := 10

/-- What is wrong with a function code for printing stored graphics. -/
def functionFault? (function : UInt8) : Option Error :=
  if function = 2 ∨ function = 50 then none else some (.printFunction function.toNat)

/-- What keeps an image from being stored. -/
def storeFault? (image : Bitmap) : Option Error :=
  let size := storeOverhead + image.data.size
  if 65535 < size then some (.outOfRange .graphicsLength size)
  else if 65535 < image.width then some (.outOfRange .graphicsWidth image.width)
  else if 65535 < image.height then some (.outOfRange .graphicsHeight image.height)
  else none

/-- What keeps a graphics command from being sent. -/
def fault? : Graphics → Option Error
  | .raster data widthBytes height _ =>
    if widthBytes = 0 then some (.outOfRange .rasterWidth 0)
    else if height = 0 then some (.outOfRange .rasterHeight 0)
    else if data.length ≠ widthBytes.toNat * height.toNat then
      some (.rasterLength widthBytes.toNat height.toNat data.length)
    else none
  | .store image _ => storeFault? image
  | .printStored function => functionFault? function

/-- The bytes of a graphics command. -/
def bytes : Graphics → Bytes
  | .raster data widthBytes height scale =>
    [0x1D, 0x76, 0x30, scale.code] ++ word widthBytes ++ word height ++ data
  | .store image color =>
    [0x1D, 0x28, 0x4C] ++ word (UInt16.ofNat (storeOverhead + image.data.size)) ++
      [0x30, 0x70, 0x30, 0x01, 0x01, color] ++
      word (UInt16.ofNat image.width) ++ word (UInt16.ofNat image.height) ++ image.bytes
  | .printStored function => [0x1D, 0x28, 0x4C, 0x02, 0x00, 0x30, function]

end Graphics

end ReceiptPrinter
