import ReceiptPrinter.Number.Format
import ReceiptPrinter.Number.Shortest
import ReceiptPrinter.Template.Record

/-! # Values — what templates are filled with

    A value is nothing, a truth value, a number, a text, an object or a list.  Every
    value has a plain text; only numbers have formats.

    What an object is, the host says: `Members` is all that a template sees of one.
    That its names are compared without regard to their case is for the host to keep;
    nothing here relies on it.  The objects of this library are records. -/

namespace ReceiptPrinter

open Number

/-- A value that a template can see, with objects of some type. -/
inductive ValueOf (o : Type) where
  | null
  | bool (b : Bool)
  | int (n : Int64)
  | float (x : Binary64)
  | text (s : String)
  | object (x : o)
  | list (items : List (ValueOf o))

/-- What a template sees of objects. -/
class Members (o : Type) where
  /-- The member that a name stands for. -/
  member? : o → String → Option (ValueOf o)
  /-- The names of the members in their order. -/
  names : o → List String
  /-- The plain text of an object. -/
  render : o → String := fun _ => ""

/-- An object that is a record of values. -/
structure Object where
  record : Record (ValueOf Object)

instance : Members Object where
  member? x := x.record.member?
  names x := x.record.names

/-- A value whose objects are records. -/
abbrev Value := ValueOf Object

/-- A record as a value. -/
@[match_pattern]
abbrev ValueOf.record (r : Record Value) : Value :=
  .object ⟨r⟩

namespace ValueOf

variable {o : Type}

/-- The integer of 64 bits for a natural number; one too large becomes the
    greatest. -/
def ofNat (n : Nat) : ValueOf o :=
  .int (if fits64 n then Int64.ofNat n else Int64.maxValue)

/-- Whether a value is nothing. -/
def isNull : ValueOf o → Bool
  | .null => true
  | _ => false

/-- Whether a condition on a value holds: it is true, a number other than zero, a
    text that is neither empty nor the word `false`, an object or a list. -/
def isTruthy : ValueOf o → Bool
  | .null => false
  | .bool b => b
  | .int n => n != 0
  | .float x => !x.isZero
  | .text s => s != "" && !Text.sameName s "false"
  | .object _ => true
  | .list _ => true

/-- The items of a list. -/
def items? : ValueOf o → Option (List (ValueOf o))
  | .list items => some items
  | _ => none

/-- A number in a format. -/
def formatted? (v : ValueOf o) (spec : String) : Option String :=
  match v with
  | .int n => formatInt? n spec
  | .float x => formatFloat? x spec
  | _ => none

mutual

/-- Whether two values are equal.  No number is equal to what is not a number, an
    integer is never equal to a floating-point number, and objects are told apart
    however alike they are. -/
def same : ValueOf o → ValueOf o → Bool
  | .null, .null => true
  | .bool a, .bool b => a == b
  | .int a, .int b => a == b
  | .float a, .float b => a.equal b
  | .text a, .text b => a == b
  | .list a, .list b => sameItems a b
  | _, _ => false

/-- Whether two lists have equal items. -/
def sameItems : List (ValueOf o) → List (ValueOf o) → Bool
  | [], [] => true
  | a :: as, b :: bs => same a b && sameItems as bs
  | _, _ => false

end

variable [Members o]

/-- The part of a value that a name stands for: a member of an object, the length of
    a list. -/
def member? (v : ValueOf o) (name : String) : Option (ValueOf o) :=
  match v with
  | .object x => Members.member? x name
  | .list items =>
    if Text.sameName name "count" || Text.sameName name "length" then
      some (.int (Int64.ofNat items.length))
    else none
  | _ => none

mutual

/-- The plain text of a value. -/
def render : ValueOf o → String
  | .null => ""
  | .bool b => if b then "true" else "false"
  | .int n => String.ofList (signedDecimal n.toInt)
  | .float x => x.plainText
  | .text s => s
  | .object x => Members.render x
  | .list items => ", ".intercalate (renderAll items)

/-- The plain texts of values. -/
def renderAll : List (ValueOf o) → List String
  | [] => []
  | v :: rest => render v :: renderAll rest

end

/-- The text of a value in a format; what has no such format is written plainly. -/
def renderWith (v : ValueOf o) (spec : String) : String :=
  (v.formatted? spec).getD v.render

end ValueOf

end ReceiptPrinter
