import ReceiptPrinter.Image.Fault
import ReceiptPrinter.Text.Utf8

/-! # Run lengths — pixels written by directives

    The pixels are written by directives that move a cursor over a canvas of palette
    indices.  Rows are counted in the order in which they are stored, so the cursor
    only ever moves on.  What falls outside the canvas is dropped, and what is never
    painted keeps index 0. -/

namespace ReceiptPrinter

/-- One directive of a run-length encoding. -/
inductive Directive where
  /-- `count` pixels of one value. -/
  | run (count value : UInt8)
  /-- Pixels given one by one. -/
  | literal (indices : List UInt8)
  /-- Moves the cursor by columns and rows. -/
  | delta (columns rows : UInt8)
  | endOfLine
  | endOfImage
deriving DecidableEq, Repr

namespace RunLength

/-- The palette indices of a byte: the byte itself, or its two halves. -/
def indicesOf (e : RunLength) (value : UInt8) : List UInt8 :=
  match e with
  | .rle8 => [value]
  | .rle4 => [value / 16, value % 16]

/-- The palette indices of a run; with halves the two take turns. -/
def runIndices (e : RunLength) (count value : UInt8) : List UInt8 :=
  match e with
  | .rle8 => List.replicate count.toNat value
  | .rle4 => (List.range count.toNat).map fun k => if k % 2 = 0 then value / 16 else value % 16

/-- The bytes that so many literal indices take, padding apart. -/
def literalBytes (e : RunLength) (count : Nat) : Nat :=
  match e with
  | .rle8 => count
  | .rle4 => (count + 1) / 2

end RunLength

/-- Reads a directive, and gives the bytes after it.  Literals fill words of two
    bytes; one that the data break off keeps the indices that are there. -/
def Directive.read? (e : RunLength) : Bytes → Option (Directive × Bytes)
  | 0 :: 0 :: rest => some (.endOfLine, rest)
  | 0 :: 1 :: rest => some (.endOfImage, rest)
  | 0 :: 2 :: columns :: rows :: rest => some (.delta columns rows, rest)
  | [0, 2] => none
  | [0, 2, _] => none
  | 0 :: count :: rest =>
    let size := e.literalBytes count.toNat
    let indices := ((rest.take size).flatMap e.indicesOf).take count.toNat
    some (.literal indices, rest.drop (size + size % 2))
  | count :: value :: rest => some (.run count value, rest)
  | _ => none

/-- A directive takes at least one byte. -/
theorem Directive.length_read? {e : RunLength} {bytes rest : Bytes} {d : Directive}
    (h : Directive.read? e bytes = some (d, rest)) : rest.length < bytes.length := by
  rw [Directive.read?.eq_def] at h
  split at h
  case h_4 | h_5 | h_8 => cases h
  case h_6 =>
    -- Only a literal has more behind its two bytes than it takes.
    cases h
    simp only [List.length_cons, List.length_drop]
    omega
  case h_1 | h_2 | h_3 | h_7 =>
    cases h
    simp only [List.length_cons]
    omega

/-- A grid of palette indices with a cursor on it. -/
structure Canvas where
  width : Nat
  height : Nat
  column : Nat
  row : Nat
  cells : Array UInt8
deriving DecidableEq, Repr

namespace Canvas

/-- A canvas with nothing painted and the cursor on the first pixel. -/
def blank (width height : Nat) : Canvas where
  width := width
  height := height
  column := 0
  row := 0
  cells := Array.replicate (width * height) 0

/-- Paints the pixel under the cursor and moves on; past the end of a row nothing
    happens. -/
def put (c : Canvas) (index : UInt8) : Canvas :=
  if c.column < c.width ∧ c.row < c.height then
    { c with
      cells := c.cells.setIfInBounds (c.row * c.width + c.column) index
      column := c.column + 1 }
  else c

/-- Paints pixels one after the other. -/
def paint (c : Canvas) (indices : List UInt8) : Canvas :=
  indices.foldl put c

/-- The palette index at a column of a stored row. -/
def cell (c : Canvas) (x row : Nat) : UInt8 :=
  c.cells.getD (row * c.width + x) 0

/-- Carries out a directive. -/
def perform (e : RunLength) (c : Canvas) : Directive → Canvas
  | .run count value => c.paint (e.runIndices count value)
  | .literal indices => c.paint indices
  | .delta columns rows => { c with column := c.column + columns.toNat, row := c.row + rows.toNat }
  | .endOfLine => { c with column := 0, row := c.row + 1 }
  | .endOfImage => c

/-- Carries out the directives in the data up to the end of the image, the end of the
    data, or the move that takes the cursor past the last row. -/
def follow (e : RunLength) (c : Canvas) (bytes : Bytes) : Canvas :=
  match h : Directive.read? e bytes with
  | none => c
  | some (.endOfImage, _) => c
  | some (d, rest) =>
    have := Directive.length_read? h
    let moved := c.perform e d
    if moved.row < moved.height then follow e moved rest else moved
termination_by bytes.length

end Canvas

end ReceiptPrinter
