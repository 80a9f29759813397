import ReceiptPrinter.Error
import ReceiptPrinter.Text.Blank
import ReceiptPrinter.Text.Letters
import ReceiptPrinter.Text.Utf8

/-! # Encodings — text as printer bytes

    A printer shows bytes by its active character table.  The encodings of one byte
    per character pass ASCII through, look other characters up in their table, and
    print `?` for what is not there. -/

namespace ReceiptPrinter

/-- An encoding of text. -/
inductive Encoding where
  | ascii
  | utf8
  | cp437
  | latin1
deriving DecidableEq, Repr

namespace Encoding

/-- The characters of code page 437 for the bytes from `0x80` on. -/
def cp437Table : List Char :=
  ("ÇüéâäàåçêëèïîìÄÅÉæÆôöòûùÿÖÜ¢£¥₧ƒáíóúñÑªº¿⌐¬½¼¡«»" ++
    "░▒▓│┤╡╢╖╕╣║╗╝╜╛┐└┴┬├─┼╞╟╚╔╩╦╠═╬╧╨╤╥╙╘╒╓╫╪┘┌█▄▌▐▀" ++
    "αßΓπΣσµτΦΘΩδ∞φε∩≡±≥≤⌠⌡÷≈°∙·√ⁿ²■\u00A0").toList

/-- The byte of a character outside ASCII in an encoding of one byte per
    character. -/
def highByte? (e : Encoding) (c : Char) : Option UInt8 :=
  match e with
  | .cp437 => (cp437Table.idxOf? c).map fun i => 0x80 + UInt8.ofNat i
  | .latin1 => if c.toNat < 256 then some (UInt8.ofNat c.toNat) else none
  | _ => none

/-- The byte of a character in an encoding of one byte per character. -/
def byte (e : Encoding) (c : Char) : UInt8 :=
  if c.toNat < 128 then UInt8.ofNat c.toNat else (e.highByte? c).getD 0x3F

/-- The bytes of a character. -/
def encodeChar (e : Encoding) (c : Char) : Bytes :=
  match e with
  | .utf8 => String.utf8EncodeChar c
  | _ => [e.byte c]

/-- The bytes of a text. -/
def encode (e : Encoding) (s : String) : Bytes :=
  s.toList.flatMap e.encodeChar

/-- Encoding a text after another puts their bytes one after the other. -/
theorem encode_append (e : Encoding) (s t : String) :
    e.encode (s ++ t) = e.encode s ++ e.encode t := by
  simp [encode, String.toList_append, List.flatMap_append]

/-- The name an encoding goes by. -/
def name : Encoding → String
  | .ascii => "ascii"
  | .utf8 => "utf-8"
  | .cp437 => "cp437"
  | .latin1 => "latin1"

/-- Every spelling of an encoding's name. -/
def spellings : List (String × Encoding) := [
  ("ascii", .ascii), ("us-ascii", .ascii), ("utf-8", .utf8), ("utf8", .utf8),
  ("cp437", .cp437), ("ibm437", .cp437), ("437", .cp437),
  ("latin1", .latin1), ("latin-1", .latin1), ("iso-8859-1", .latin1)]

/-- The encoding of that name; blanks around it and the case of its letters do not
    count. -/
def ofName (s : String) : Except Error Encoding :=
  let key := Text.lowerAscii (Text.trim s)
  match spellings.lookup key with
  | some e => .ok e
  | none => .error (.unknownEncoding key)

end Encoding

end ReceiptPrinter
