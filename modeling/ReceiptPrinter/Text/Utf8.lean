/-! # UTF-8 — reading scalar values out of bytes

    `Utf8.head` reads one well-formed sequence at the start of a byte string, or says
    how many bytes form the longest beginning of one.  The strict reader refuses the
    second case, the lenient one puts a replacement character in its place. -/

namespace ReceiptPrinter

/-- A string of bytes. -/
abbrev Bytes := List UInt8

namespace Utf8

/-- What stands at the start of a byte string. -/
inductive Head where
  /-- A well-formed sequence of `size` bytes for `c`. -/
  | scalar (c : Char) (size : Nat)
  /-- `size` bytes that begin no well-formed sequence, or one that breaks off after
      them. -/
  | broken (size : Nat)

/-- The encoding of a text. -/
def encode (s : String) : Bytes :=
  s.toList.flatMap String.utf8EncodeChar

/-- Whether a byte continues a sequence. -/
def isTail (b : UInt8) : Bool :=
  0x80 ≤ b && b ≤ 0xBF

/-- The six low bits of a byte. -/
def low6 (b : UInt8) : Nat :=
  b.toNat % 64

/-- The second byte of a sequence of three, after the first one `a`: overlong forms
    and surrogates are left out. -/
def isSecondOfThree (a b : UInt8) : Bool :=
  if a = 0xE0 then 0xA0 ≤ b && b ≤ 0xBF
  else if a = 0xED then 0x80 ≤ b && b ≤ 0x9F
  else isTail b

/-- The second byte of a sequence of four, after the first one `a`: overlong forms
    and values past the last scalar value are left out. -/
def isSecondOfFour (a b : UInt8) : Bool :=
  if a = 0xF0 then 0x90 ≤ b && b ≤ 0xBF
  else if a = 0xF4 then 0x80 ≤ b && b ≤ 0x8F
  else isTail b

/-- The rest of a sequence of three bytes that starts with `a`. -/
def headOfThree (a : UInt8) : Bytes → Head
  | b :: c :: _ =>
    if !isSecondOfThree a b then .broken 1
    else if !isTail c then .broken 2
    else .scalar (Char.ofNat (a.toNat % 16 * 4096 + low6 b * 64 + low6 c)) 3
  | [b] => if isSecondOfThree a b then .broken 2 else .broken 1
  | [] => .broken 1

/-- The rest of a sequence of four bytes that starts with `a`. -/
def headOfFour (a : UInt8) : Bytes → Head
  | b :: rest =>
    if !isSecondOfFour a b then .broken 1
    else match rest with
      | c :: d :: _ =>
        if !isTail c then .broken 2
        else if !isTail d then .broken 3
        else .scalar
          (Char.ofNat (a.toNat % 8 * 262144 + low6 b * 4096 + low6 c * 64 + low6 d)) 4
      | [c] => if isTail c then .broken 3 else .broken 2
      | [] => .broken 2
  | [] => .broken 1

/-- What stands at the start of the bytes `a :: rest`. -/
def head (a : UInt8) (rest : Bytes) : Head :=
  if a < 0x80 then .scalar (Char.ofNat a.toNat) 1
  else if 0xC2 ≤ a && a ≤ 0xDF then
    match rest with
    | b :: _ =>
      if isTail b then .scalar (Char.ofNat (a.toNat % 32 * 64 + low6 b)) 2 else .broken 1
    | [] => .broken 1
  else if 0xE0 ≤ a && a ≤ 0xEF then headOfThree a rest
  else if 0xF0 ≤ a && a ≤ 0xF4 then headOfFour a rest
  else .broken 1

/-- The characters of a byte string, each broken part read as `U+FFFD`, added to
    those already read, which are given last first. -/
def lenientOnto (read : List Char) : Bytes → List Char
  | [] => read.reverse
  | a :: rest =>
    match head a rest with
    | .scalar c size => lenientOnto (c :: read) (rest.drop (size - 1))
    | .broken size => lenientOnto ('\uFFFD' :: read) (rest.drop (size - 1))
termination_by bytes => bytes.length
decreasing_by all_goals simp only [List.length_cons, List.length_drop]; omega

/-- The text of a byte string, each broken part read as `U+FFFD`. -/
def lenient (bytes : Bytes) : String :=
  String.ofList (lenientOnto [] bytes)

/-- The characters of a well-formed byte string, added to those already read, which
    are given last first. -/
def strictOnto (read : List Char) : Bytes → Option (List Char)
  | [] => some read.reverse
  | a :: rest =>
    match head a rest with
    | .scalar c size => strictOnto (c :: read) (rest.drop (size - 1))
    | .broken _ => none
termination_by bytes => bytes.length
decreasing_by simp only [List.length_cons, List.length_drop]; omega

/-- The text of a byte string, when all of it is well formed. -/
def strict? (bytes : Bytes) : Option String :=
  (strictOnto [] bytes).map String.ofList

end Utf8

end ReceiptPrinter
