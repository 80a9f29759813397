/-! # Profiles — what a model of printer can take

    What a model of printer can take: the columns of a line and the size of its
    graphics buffer. -/

namespace ReceiptPrinter

/-- The capabilities of a printer. -/
structure Profile where
  /-- The characters of a line in the built-in font. -/
  columns : Nat
  /-- The greatest width of an image in dots. -/
  maxWidth : Nat
  /-- The greatest height of an image in dots. -/
  maxHeight : Nat
deriving DecidableEq, Repr

/-- The printer that is assumed when nothing else is said, the TM-T20. -/
def Profile.tmT20 : Profile where
  columns := 48
  maxWidth := 2047
  maxHeight := 1662

end ReceiptPrinter
