import ReceiptPrinter.Command.Style
import ReceiptPrinter.Text.Utf8

/-! # Events — what a printer's bytes say

    `Event.scan` reads one piece at the start of a byte string: a command with its
    parameters, or a character.  It tells how many bytes the piece takes, which may
    be more than there are when a command announces data that is cut off, or that the
    bytes end before the command is complete. -/

namespace ReceiptPrinter

/-- What a piece of a print job means to who looks at the paper. -/
inductive Event where
  /-- A command without a visible effect, or a control character that is skipped. -/
  | skip
  | reset
  | bold (on : Bool)
  | underline (on : Bool)
  | invert (on : Bool)
  | align (side : Alignment)
  | scale (width height : Nat)
  | character (c : Char)
  | tab
  | lineEnd
  | formFeed
  | blankLines (count : Nat)
  | cut (full : Bool)
  | barcode (kind : UInt8) (data : Bytes)
  | storeSymbol (data : Bytes)
  | printSymbol
  | image
deriving DecidableEq, Repr

/-- What stands at the start of a byte string. -/
inductive Scan where
  /-- A piece of so many bytes. -/
  | piece (size : Nat) (event : Event)
  /-- The beginning of a command that the bytes do not complete. -/
  | truncated
deriving DecidableEq, Repr

namespace Event

/-- A command of a fixed size without visible effect, `rest` being what follows its
    first byte. -/
def silent (size : Nat) (rest : Bytes) : Scan :=
  if (rest.drop (size - 2)).isEmpty then .truncated else .piece size .skip

/-- The number that two bytes form, the low one first. -/
def wordValue (low high : UInt8) : Nat :=
  low.toNat + 256 * high.toNat

/-! ## Commands after `ESC` -/

/-- The alignment that a parameter asks for. -/
def alignment (n : UInt8) : Alignment :=
  if n = 1 ∨ n = 0x31 then .center
  else if n = 2 ∨ n = 0x32 then .right
  else .left

/-- The commands after `ESC` that have one parameter and no visible effect: font,
    rotation, print mode, character set, character table, spacings, double strike and
    feeding dots. -/
def silentEscapes : List UInt8 :=
  [0x4D, 0x56, 0x21, 0x52, 0x74, 0x20, 0x33, 0x47, 0x4A]

/-- What a command after `ESC` with one parameter means. -/
def ofEscape (code n : UInt8) : Option Event :=
  if code = 0x45 then some (.bold (n % 2 = 1))
  else if code = 0x2D then some (.underline (n ≠ 0 ∧ n ≠ 0x30))
  else if code = 0x61 then some (.align (alignment n))
  else if code = 0x64 then some (.blankLines n.toNat)
  else if silentEscapes.contains code then some .skip
  else none

/-- Reads what follows `ESC`. -/
def scanEscape : Bytes → Scan
  | [] => .truncated
  | code :: rest =>
    if code = 0x40 then .piece 2 .reset
    else if code = 0x32 then .piece 2 .skip
    else if code = 0x0A then .piece 2 .lineEnd
    else if code = 0x24 ∨ code = 0x5C ∨ code = 0x42 then silent 4 (code :: rest)
    else if code = 0x70 then silent 5 (code :: rest)
    else match rest with
      | n :: _ =>
        match ofEscape code n with
        | some event => .piece 3 event
        | none => .piece 2 .skip
      | [] => if (ofEscape code 0).isSome then .truncated else .piece 2 .skip

/-! ## Commands after `GS` -/

/-- Reads the parameters of a cut. -/
def scanCut : Bytes → Scan
  | [] => .truncated
  | mode :: rest =>
    if mode = 0 ∨ mode = 0x30 then .piece 3 (.cut true)
    else if mode = 1 ∨ mode = 0x31 then .piece 3 (.cut false)
    else if mode = 0x41 ∨ mode = 0x42 then
      if rest.isEmpty then .truncated else .piece 4 (.cut (mode = 0x41))
    else .piece 3 .skip

/-- Reads the parameters of a bar code: data that a NUL ends for the kinds up to 6,
    data after its length for all others. -/
def scanBarcode : Bytes → Scan
  | [] => .truncated
  | kind :: rest =>
    if kind ≤ 6 then
      let data := rest.takeWhile (· ≠ 0)
      .piece (data.length + 4) (.barcode kind data)
    else match rest with
      | [] => .truncated
      | length :: rest => .piece (length.toNat + 4) (.barcode kind (rest.take length.toNat))

/-- What the parameters of a function of `GS (` mean. -/
def ofFunction (group : UInt8) (parameters : Bytes) : Event :=
  if group = 0x6B then
    match parameters with
    | 0x31 :: 0x50 :: _ :: data => .storeSymbol data
    | 0x31 :: 0x51 :: _ => .printSymbol
    | _ => .skip
  else if group = 0x4C then
    match parameters with
    | [0x30, 0x02] => .image
    | [0x30, 0x32] => .image
    | _ => .skip
  else .skip

/-- Reads the parameters of `GS (`: the group, their length, and so many bytes. -/
def scanFunction : Bytes → Scan
  | group :: low :: high :: rest =>
    let length := wordValue low high
    .piece (length + 5) (ofFunction group (rest.take length))
  | _ => .truncated

/-- Reads the parameters of a raster image. -/
def scanRaster : Bytes → Scan
  | form :: _ :: widthLow :: widthHigh :: heightLow :: heightHigh :: _ =>
    if form = 0x30 then
      .piece (8 + wordValue widthLow widthHigh * wordValue heightLow heightHigh) .image
    else .piece 3 .skip
  | _ => .truncated

/-- The commands after `GS` that have one parameter and no visible effect: height,
    width, text position and font of bar codes, status and smoothing. -/
def silentGroups : List UInt8 :=
  [0x68, 0x77, 0x48, 0x66, 0x72, 0x62]

/-- Reads what follows `GS`. -/
def scanGroup : Bytes → Scan
  | [] => .truncated
  | code :: rest =>
    if code = 0x21 then
      match rest with
      | n :: _ => .piece 3 (.scale (n.toNat % 16 + 1) (n.toNat / 16 + 1))
      | [] => .truncated
    else if code = 0x42 then
      match rest with
      | n :: _ => .piece 3 (.invert (n % 2 = 1))
      | [] => .truncated
    else if code = 0x56 then scanCut rest
    else if code = 0x6B then scanBarcode rest
    else if code = 0x28 then scanFunction rest
    else if code = 0x76 then scanRaster rest
    else if silentGroups.contains code then silent 3 (code :: rest)
    else if code = 0x4C then silent 4 (code :: rest)
    else .piece 2 .skip

/-! ## Other bytes -/

/-- Reads what follows `DLE`. -/
def scanDevice : Bytes → Scan
  | [] => .truncated
  | code :: rest =>
    if code = 0x04 ∨ code = 0x05 then silent 3 (code :: rest) else .piece 2 .skip

/-- Reads a byte that starts no command.  A byte that starts no UTF-8 sequence is the
    character of its number. -/
def scanText (b : UInt8) (rest : Bytes) : Scan :=
  if b = 0x0A then .piece 1 .lineEnd
  else if b = 0x0C then .piece 1 .formFeed
  else if b = 0x09 then .piece 1 .tab
  else if b < 0x20 ∨ b = 0x7F then .piece 1 .skip
  else match Utf8.head b rest with
    | .scalar c size => .piece size (.character c)
    | .broken _ => .piece 1 (.character (Char.ofNat b.toNat))

/-- Reads the piece that starts with `b`. -/
def scan (b : UInt8) (rest : Bytes) : Scan :=
  if b = 0x1B then scanEscape rest
  else if b = 0x1D then scanGroup rest
  else if b = 0x10 then scanDevice rest
  else scanText b rest

end Event

end ReceiptPrinter
