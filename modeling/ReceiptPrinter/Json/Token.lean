import ReceiptPrinter.Json.Literal
import ReceiptPrinter.Number.Literal

/-! # Tokens of JSON — the pieces of a text

    A JSON text is a sequence of brackets, separators, words, strings and numbers
    with blanks between them.  A string whose escapes do not make up a text is a
    token all the same: it is refused where its content is asked for. -/

namespace ReceiptPrinter.Json

open Number

/-- A token of JSON text. -/
inductive Token where
  | leftBrace
  | rightBrace
  | leftBracket
  | rightBracket
  | comma
  | colon
  | null
  | bool (b : Bool)
  /-- A string, with its content when its escapes make up a text. -/
  | text (content : Option String)
  | number (l : Literal)
deriving DecidableEq, Repr

/-- A part of a string: a character, or a unit of 16 bits given by an escape. -/
inductive Piece where
  | char (c : Char)
  | unit (n : Nat)
deriving DecidableEq, Repr

/-- The characters of the parts of a string.  A unit is a character of its own, or
    the first or second half of one; halves must come in pairs. -/
def decodePieces? : List Piece → Option (List Char)
  | [] => some []
  | .char c :: rest => (decodePieces? rest).map (c :: ·)
  | .unit high :: .unit low :: rest =>
    if 0xD800 ≤ high ∧ high < 0xDC00 then
      if 0xDC00 ≤ low ∧ low < 0xE000 then
        (decodePieces? rest).map
          (Char.ofNat (0x10000 + (high - 0xD800) * 1024 + (low - 0xDC00)) :: ·)
      else none
    else if 0xDC00 ≤ high ∧ high < 0xE000 then none
    else (decodePieces? (.unit low :: rest)).map (Char.ofNat high :: ·)
  | .unit n :: rest =>
    if 0xD800 ≤ n ∧ n < 0xE000 then none else (decodePieces? rest).map (Char.ofNat n :: ·)

/-- The value of a hexadecimal digit. -/
def hexValue? (c : Char) : Option Nat :=
  if '0' ≤ c ∧ c ≤ '9' then some (c.toNat - 48)
  else if 'a' ≤ c ∧ c ≤ 'f' then some (c.toNat - 87)
  else if 'A' ≤ c ∧ c ≤ 'F' then some (c.toNat - 55)
  else none

/-- The unit that four hexadecimal digits give. -/
def unit? (a b c d : Char) : Option Piece :=
  match hexValue? a, hexValue? b, hexValue? c, hexValue? d with
  | some a, some b, some c, some d => some (.unit (((a * 16 + b) * 16 + c) * 16 + d))
  | _, _, _, _ => none

/-- The character that a letter stands for after a backslash. -/
def escaped? : Char → Option Char
  | '"' => some '"'
  | '\\' => some '\\'
  | '/' => some '/'
  | 'b' => some '\x08'
  | 'f' => some '\x0c'
  | 'n' => some '\n'
  | 'r' => some '\r'
  | 't' => some '\t'
  | _ => none

/-- Reads a string up to its closing quote, onto the parts read before, which are
    given last first: all parts, and what follows the quote. -/
def readText (read : List Piece) : List Char → Option (List Piece × List Char)
  | [] => none
  | '"' :: rest => some (read.reverse, rest)
  | '\\' :: 'u' :: a :: b :: c :: d :: rest =>
    match unit? a b c d with
    | some piece => readText (piece :: read) rest
    | none => none
  | '\\' :: c :: rest =>
    match escaped? c with
    | some e => readText (.char e :: read) rest
    | none => none
  | c :: rest => if c.toNat < 0x20 ∨ c = '\\' then none else readText (.char c :: read) rest

theorem length_readText {read pieces : List Piece} {cs rest : List Char}
    (h : readText read cs = some (pieces, rest)) : rest.length < cs.length := by
  fun_induction readText read cs with
  | case1 => cases h
  | case2 read tail =>
      cases h
      exact Nat.lt_succ_self _
  | case3 read a b c d tail piece hunit ih =>
      have := ih h
      simp only [List.length_cons]
      omega
  | case4 => cases h
  | case5 read c tail _ escaped hescaped ih =>
      exact Nat.lt_succ_of_lt (Nat.lt_succ_of_lt (ih h))
  | case6 | case7 => cases h
  | case8 read c tail _ _ _ _ ih => exact Nat.lt_succ_of_lt (ih h)

/-- Reads digits, at least one. -/
def readDigits (cs : List Char) : Option (List Char × List Char) :=
  match takeDigits cs with
  | ([], _) => none
  | found => some found

theorem length_readDigits {cs digits rest : List Char} (h : readDigits cs = some (digits, rest)) :
    rest.length < cs.length := by
  cases cs with
  | nil => cases h
  | cons c tail =>
      rw [readDigits, takeDigits, List.takeWhile_cons, List.dropWhile_cons] at h
      cases hc : c.isDigit with
      | false =>
          rw [hc] at h
          cases h
      | true =>
          rw [hc] at h
          cases h
          exact Nat.lt_succ_of_le (List.dropWhile_suffix _).length_le

/-- Reads the digits before the point: a single zero, or digits that start with
    another one. -/
def readWhole : List Char → Option (List Char × List Char)
  | '0' :: rest => some (['0'], rest)
  | cs => readDigits cs

theorem length_readWhole {cs digits rest : List Char} (h : readWhole cs = some (digits, rest)) :
    rest.length < cs.length := by
  rw [readWhole.eq_def] at h
  split at h
  · cases h
    exact Nat.lt_succ_self _
  · exact length_readDigits h

/-- Reads the point and the digits after it, if there is a point. -/
def readFraction : List Char → Option (Option (List Char) × List Char)
  | '.' :: rest => (readDigits rest).map fun (digits, rest) => (some digits, rest)
  | rest => some (none, rest)

theorem length_readFraction {cs rest : List Char} {digits : Option (List Char)}
    (h : readFraction cs = some (digits, rest)) : rest.length ≤ cs.length := by
  rw [readFraction.eq_def] at h
  split at h
  · obtain ⟨⟨written, after⟩, hd, he⟩ := Option.map_eq_some_iff.mp h
    cases he
    exact Nat.le_succ_of_le (Nat.le_of_lt (length_readDigits hd))
  · cases h
    exact Nat.le_refl _

/-- Reads the exponent of a number, if there is one. -/
def readExponent : List Char → Option (Option (Bool × List Char) × List Char)
  | 'e' :: rest | 'E' :: rest =>
    (readDigits (takeSign rest).2).map fun (digits, after) =>
      (some ((takeSign rest).1, digits), after)
  | rest => some (none, rest)

theorem length_takeSign (cs : List Char) : (takeSign cs).2.length ≤ cs.length := by
  rw [takeSign.eq_def]
  split
  · exact Nat.le_succ _
  · exact Nat.le_succ _
  · exact Nat.le_refl _

theorem length_readExponent {cs rest : List Char} {exponent : Option (Bool × List Char)}
    (h : readExponent cs = some (exponent, rest)) : rest.length ≤ cs.length := by
  -- Behind its letter, small or capital, an exponent is a sign and digits.
  have behind : ∀ tail : List Char,
      ((readDigits (takeSign tail).2).map fun (digits, after) =>
        (some ((takeSign tail).1, digits), after)) = some (exponent, rest) →
      rest.length ≤ tail.length := by
    intro tail h
    obtain ⟨⟨digits, after⟩, hd, he⟩ := Option.map_eq_some_iff.mp h
    cases he
    exact Nat.le_trans (Nat.le_of_lt (length_readDigits hd)) (length_takeSign tail)
  rw [readExponent.eq_def] at h
  split at h
  next tail => exact Nat.le_succ_of_le (behind tail h)
  next tail => exact Nat.le_succ_of_le (behind tail h)
  · cases h
    exact Nat.le_refl _

/-- Reads a number whose sign has been read. -/
def readNumber (negative : Bool) (cs : List Char) : Option (Literal × List Char) :=
  match readWhole cs with
  | none => none
  | some (whole, rest) =>
    match readFraction rest with
    | none => none
    | some (fraction, rest) =>
      match readExponent rest with
      | none => none
      | some (exponent, rest) => some (⟨negative, whole, fraction, exponent⟩, rest)

theorem length_readNumber {negative : Bool} {cs rest : List Char} {l : Literal}
    (h : readNumber negative cs = some (l, rest)) : rest.length < cs.length := by
  rw [readNumber] at h
  split at h
  · cases h
  next whole afterWhole hwhole =>
    split at h
    · cases h
    next fraction afterFraction hfraction =>
      split at h
      · cases h
      next exponent afterExponent hexponent =>
        cases h
        calc rest.length ≤ afterFraction.length := length_readExponent hexponent
          _ ≤ afterWhole.length := length_readFraction hfraction
          _ < cs.length := length_readWhole hwhole

/-- Whether a character stands between tokens. -/
def isBlank (c : Char) : Bool :=
  c == ' ' || c == '\n' || c == '\r' || c == '\t'

/-- The tokens of a text, onto those read before, which are given last first. -/
def tokensOnto (read : List Token) (cs : List Char) : Option (List Token) :=
  match cs with
  | [] => some read.reverse
  | '\x7b' :: rest => tokensOnto (.leftBrace :: read) rest
  | '\x7d' :: rest => tokensOnto (.rightBrace :: read) rest
  | '[' :: rest => tokensOnto (.leftBracket :: read) rest
  | ']' :: rest => tokensOnto (.rightBracket :: read) rest
  | ',' :: rest => tokensOnto (.comma :: read) rest
  | ':' :: rest => tokensOnto (.colon :: read) rest
  | 'n' :: 'u' :: 'l' :: 'l' :: rest => tokensOnto (.null :: read) rest
  | 't' :: 'r' :: 'u' :: 'e' :: rest => tokensOnto (.bool true :: read) rest
  | 'f' :: 'a' :: 'l' :: 's' :: 'e' :: rest => tokensOnto (.bool false :: read) rest
  | '"' :: rest =>
    match h : readText [] rest with
    | none => none
    | some (pieces, after) =>
      have := length_readText h
      tokensOnto (.text ((decodePieces? pieces).map String.ofList) :: read) after
  | '-' :: rest =>
    match h : readNumber true rest with
    | none => none
    | some (l, after) =>
      have := length_readNumber h
      tokensOnto (.number l :: read) after
  | c :: rest =>
    if isBlank c then tokensOnto read rest
    else if c.isDigit then
      match h : readNumber false (c :: rest) with
      | none => none
      | some (l, after) =>
        have := length_readNumber h
        tokensOnto (.number l :: read) after
    else none
termination_by cs.length
decreasing_by all_goals simp only [List.length_cons]; omega

/-- The tokens of a text. -/
def tokens? (s : String) : Option (List Token) :=
  tokensOnto [] s.toList

end ReceiptPrinter.Json
