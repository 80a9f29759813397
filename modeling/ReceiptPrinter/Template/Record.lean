import ReceiptPrinter.Text.Letters

/-! # Records — ordered sets of named fields

    Names are compared without regard to the case of ASCII letters.  Setting a field
    that is there keeps its place and its first spelling and replaces its value. -/

namespace ReceiptPrinter

/-- An ordered set of named fields. -/
structure Record (α : Type) where
  fields : List (String × α)
deriving DecidableEq, Repr

namespace Record

variable {α : Type}

/-- The record without fields. -/
def empty : Record α := ⟨[]⟩

/-- Sets a field in a list of fields. -/
def setField (name : String) (value : α) : List (String × α) → List (String × α)
  | [] => [(name, value)]
  | (spelling, old) :: rest =>
    if Text.sameName spelling name then (spelling, value) :: rest
    else (spelling, old) :: setField name value rest

/-- Sets a field. -/
def insert (r : Record α) (name : String) (value : α) : Record α :=
  ⟨setField name value r.fields⟩

/-- The value of a field. -/
def member? (r : Record α) (name : String) : Option α :=
  (r.fields.find? fun field => Text.sameName field.1 name).map Prod.snd

/-- The names of the fields in their order. -/
def names (r : Record α) : List String :=
  r.fields.map Prod.fst

/-- The record that setting fields one after the other gives. -/
def ofList (fields : List (String × α)) : Record α :=
  fields.foldl (fun r field => r.insert field.1 field.2) empty

end Record

end ReceiptPrinter
