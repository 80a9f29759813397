import ReceiptPrinter.Json.Token

/-! # JSON syntax — a text as it is written

    A JSON text as it is written: numbers are literals, the fields of an object stand
    in their order and may repeat, and strings may lack a content.  What a program
    does not look at needs no more than this. -/

namespace ReceiptPrinter.Json

/-- A JSON text as it is written. -/
inductive Syntax where
  | null
  | bool (b : Bool)
  | number (l : Literal)
  | text (content : Option String)
  | array (items : List Syntax)
  | object (fields : List (Option String × Syntax))

mutual

/-- Reads a value; `fuel` bounds the tokens that may be read. -/
def readValue (fuel : Nat) (tokens : List Token) : Option (Syntax × List Token) :=
  match fuel with
  | 0 => none
  | fuel + 1 =>
    match tokens with
    | .null :: rest => some (.null, rest)
    | .bool b :: rest => some (.bool b, rest)
    | .number l :: rest => some (.number l, rest)
    | .text content :: rest => some (.text content, rest)
    | .leftBracket :: .rightBracket :: rest => some (.array [], rest)
    | .leftBracket :: rest =>
      (readItems fuel rest).map fun (items, rest) => (.array items, rest)
    | .leftBrace :: .rightBrace :: rest => some (.object [], rest)
    | .leftBrace :: rest =>
      (readFields fuel rest).map fun (fields, rest) => (.object fields, rest)
    | _ => none

/-- Reads the items of an array up to its closing bracket. -/
def readItems (fuel : Nat) (tokens : List Token) : Option (List Syntax × List Token) :=
  match fuel with
  | 0 => none
  | fuel + 1 =>
    match readValue fuel tokens with
    | some (item, .comma :: rest) =>
      (readItems fuel rest).map fun (items, rest) => (item :: items, rest)
    | some (item, .rightBracket :: rest) => some ([item], rest)
    | _ => none

/-- Reads the fields of an object up to its closing brace. -/
def readFields (fuel : Nat) (tokens : List Token) :
    Option (List (Option String × Syntax) × List Token) :=
  match fuel with
  | 0 => none
  | fuel + 1 =>
    match tokens with
    | .text name :: .colon :: rest =>
      match readValue fuel rest with
      | some (value, .comma :: rest) =>
        (readFields fuel rest).map fun (fields, rest) => ((name, value) :: fields, rest)
      | some (value, .rightBrace :: rest) => some ([(name, value)], rest)
      | _ => none
    | _ => none

end

/-- Reads a text that is one JSON value.  Every call reads a token or is made by one
    that did, so twice their count is fuel enough. -/
def Syntax.read? (s : String) : Option Syntax :=
  match tokens? s with
  | none => none
  | some tokens =>
    match readValue (2 * tokens.length + 1) tokens with
    | some (value, []) => some value
    | _ => none

end ReceiptPrinter.Json
