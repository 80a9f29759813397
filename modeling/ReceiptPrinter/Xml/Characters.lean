import ReceiptPrinter.Text.Split

/-! # Characters of XML — names, blanks and references

    The character classes of XML 1.0, and the texts that a document writes with
    references and line ends: a reference stands for its character unchanged, while
    line ends written as such are made uniform.  Only beside a reference a carriage
    return may stay. -/

namespace ReceiptPrinter.Xml

/-- Whether a character may stand in a document. -/
def isAllowed (c : Char) : Bool :=
  if c.toNat < 0x20 then c == '\t' || c == '\n' || c == '\r'
  else c.toNat != 0xFFFE && c.toNat != 0xFFFF

/-- Whether a character separates the parts of markup. -/
def isSpace (c : Char) : Bool :=
  c == ' ' || c == '\t' || c == '\n' || c == '\r'

/-- Whether a code point lies in one of the ranges. -/
def inRange (ranges : List (Nat × Nat)) (n : Nat) : Bool :=
  ranges.any fun r => r.1 ≤ n && n ≤ r.2

/-- The characters other than `:` that a name may start with. -/
def nameStartRanges : List (Nat × Nat) := [
  (0x41, 0x5A), (0x5F, 0x5F), (0x61, 0x7A), (0xC0, 0xD6), (0xD8, 0xF6), (0xF8, 0x2FF),
  (0x370, 0x37D), (0x37F, 0x1FFF), (0x200C, 0x200D), (0x2070, 0x218F), (0x2C00, 0x2FEF),
  (0x3001, 0xD7FF), (0xF900, 0xFDCF), (0xFDF0, 0xFFFD), (0x10000, 0xEFFFF)]

/-- The characters that may stand in a name but not start it. -/
def nameExtraRanges : List (Nat × Nat) := [
  (0x2D, 0x2E), (0x30, 0x39), (0xB7, 0xB7), (0x300, 0x36F), (0x203F, 0x2040)]

/-- Whether a name without colons may start with a character. -/
def isNameStart (c : Char) : Bool :=
  inRange nameStartRanges c.toNat

/-- Whether a character may stand in a name without colons. -/
def isNameChar (c : Char) : Bool :=
  isNameStart c || inRange nameExtraRanges c.toNat

/-- The value of a hexadecimal digit. -/
def hexDigit? (c : Char) : Option Nat :=
  if '0' ≤ c ∧ c ≤ '9' then some (c.toNat - 48)
  else if 'a' ≤ c ∧ c ≤ 'f' then some (c.toNat - 87)
  else if 'A' ≤ c ∧ c ≤ 'F' then some (c.toNat - 55)
  else none

/-- The value of digits in a base after those of `n`; there is none past 32 bits. -/
def codeOnto? (base n : Nat) : List Char → Option Nat
  | [] => if n < UInt32.size then some n else none
  | c :: rest =>
    match hexDigit? c with
    | some d => if d < base then codeOnto? base (n * base + d) rest else none
    | none => none

/-- The value of at least one digit in a base. -/
def code? (base : Nat) : List Char → Option Nat
  | [] => none
  | digits => codeOnto? base 0 digits

/-- The character of a code; one that is no scalar value gives `U+FFFD`, and there is
    none for a character that may not stand in a document. -/
def charOfCode? (n : Nat) : Option Char :=
  let c := if n < 0xD800 ∨ (0xDFFF < n ∧ n < 0x110000) then Char.ofNat n else '\uFFFD'
  if isAllowed c then some c else none

/-- The character that the body of a reference stands for. -/
def referenced? : List Char → Option Char
  | '#' :: 'x' :: digits => (code? 16 digits).bind charOfCode?
  | '#' :: digits => (code? 10 digits).bind charOfCode?
  | ['l', 't'] => some '<'
  | ['g', 't'] => some '>'
  | ['a', 'm', 'p'] => some '&'
  | ['q', 'u', 'o', 't'] => some '"'
  | ['a', 'p', 'o', 's'] => some '\''
  | _ => none

/-- The characters with every line end as a line feed. -/
def uniformLines : List Char → List Char
  | '\r' :: '\n' :: rest => '\n' :: uniformLines rest
  | '\r' :: rest => '\n' :: uniformLines rest
  | c :: rest => c :: uniformLines rest
  | [] => []

/-- What is left of a carriage return between tags that no line feed follows, given
    whether a reference ends right before it and what stands behind it.  It is a line
    end, but stays as it is in front of a reference, and at the end of a text right
    behind a reference. -/
def contentReturn (afterReference : Bool) : List Char → Char
  | '&' :: _ => '\r'
  | [] => if afterReference then '\r' else '\n'
  | _ => '\n'

/-- How the characters of a text are read that are written as such. -/
structure RawReading where
  /-- What a carriage return becomes that no line feed follows, given whether a
      reference ends right before it, and the characters behind it. -/
  lone : Bool → List Char → Char
  /-- What any other character becomes; a carriage return with a line feed counts as
      the feed. -/
  plain : Char → Char

/-- The characters that a written text stands for: a reference stands for its
    character, all others are read one by one. -/
def RawReading.resolve? (r : RawReading) (afterReference : Bool) (cs : List Char) :
    Option (List Char) :=
  match cs with
  | [] => some []
  | '&' :: rest =>
    match h : Text.splitFirst? ';' rest with
    | none => none
    | some (body, after) =>
      have := Text.length_of_splitFirst? h
      match referenced? body, r.resolve? true after with
      | some c, some others => some (c :: others)
      | _, _ => none
  | '\r' :: '\n' :: rest => (r.resolve? false rest).map (r.plain '\n' :: ·)
  | '\r' :: rest => (r.resolve? false rest).map (r.lone afterReference rest :: ·)
  | c :: rest => (r.resolve? false rest).map (r.plain c :: ·)
termination_by cs.length
decreasing_by all_goals simp only [List.length_cons]; omega

/-- The text that the characters between tags stand for. -/
def contentText? (cs : List Char) : Option (List Char) :=
  RawReading.resolve? ⟨contentReturn, id⟩ false cs

/-- The text that a quoted attribute value stands for: line ends and tabs become
    spaces. -/
def attributeText? (cs : List Char) : Option (List Char) :=
  RawReading.resolve? ⟨fun _ _ => ' ', fun c => if c = '\n' ∨ c = '\t' then ' ' else c⟩ false cs

end ReceiptPrinter.Xml
