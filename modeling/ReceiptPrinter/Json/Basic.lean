import ReceiptPrinter.Json.Syntax
import ReceiptPrinter.Template.Context

/-! # JSON values — a text as data

    A JSON text as data: numbers are integers of 64 bits or binary numbers, and an
    object has each key once, in the order of the keys.  `ValueOf.ofJson` makes it a
    value for templates. -/

namespace ReceiptPrinter

open Number

/-- A JSON value. -/
inductive Json where
  | null
  | bool (b : Bool)
  | integer (n : Int)
  | float (x : Binary64)
  | text (s : String)
  | array (items : List Json)
  | object (fields : List (String × Json))

namespace Json

/-- How deep arrays and objects may be nested. -/
def maxDepth : Nat := 127

/-- Puts a field into fields that are ordered by key; an equal key gets the new
    value. -/
def putField (key : String) (value : Json) : List (String × Json) → List (String × Json)
  | [] => [(key, value)]
  | (k, v) :: rest =>
    if key = k then (k, value) :: rest
    else if key < k then (key, value) :: (k, v) :: rest
    else (k, v) :: putField key value rest

mutual

/-- The value of a syntax tree that may be `room` levels deep. -/
def ofSyntax? (room : Nat) : Syntax → Option Json
  | .null => some .null
  | .bool b => some (.bool b)
  | .number l =>
    l.amount?.map fun
      | .integer n => .integer n
      | .float x => .float x
  | .text content => content.map .text
  | .array items => if room = 0 then none else (ofItems? (room - 1) items).map .array
  | .object fields => if room = 0 then none else (ofFields? (room - 1) [] fields).map .object

/-- The values of the items of an array. -/
def ofItems? (room : Nat) : List Syntax → Option (List Json)
  | [] => some []
  | item :: rest =>
    match ofSyntax? room item, ofItems? room rest with
    | some j, some js => some (j :: js)
    | _, _ => none

/-- The fields of an object, put one after the other into those before. -/
def ofFields? (room : Nat) (before : List (String × Json)) :
    List (Option String × Syntax) → Option (List (String × Json))
  | [] => some before
  | (name, value) :: rest =>
    match name, ofSyntax? room value with
    | some key, some j => ofFields? room (putField key j before) rest
    | _, _ => none

end

/-- Reads a JSON text. -/
def read? (s : String) : Option Json :=
  (Syntax.read? s).bind (ofSyntax? maxDepth)

end Json

namespace ValueOf

mutual

/-- The value that a JSON value stands for; an integer past 64 bits with sign becomes
    a binary number. -/
def ofJson : Json → Value
  | .null => .null
  | .bool b => .bool b
  | .integer n =>
    if Number.fits64 n then .int (Int64.ofInt n) else .float (.ofInt n)
  | .float x => .float x
  | .text s => .text s
  | .array items => .list (ofItems items)
  | .object fields => .record (ofFields .empty fields)

/-- The values of the items of an array. -/
def ofItems : List Json → List Value
  | [] => []
  | j :: rest => ofJson j :: ofItems rest

/-- The record of the fields of an object, set one after the other. -/
def ofFields (r : Record Value) : List (String × Json) → Record Value
  | [] => r
  | (key, j) :: rest => ofFields (r.insert key (ofJson j)) rest

end

end ValueOf

/-- The context of a JSON value. -/
def Context.ofJson (j : Json) : Context :=
  .ofValue (.ofJson j)

end ReceiptPrinter
