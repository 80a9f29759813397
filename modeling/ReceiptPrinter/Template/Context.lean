import ReceiptPrinter.Error
import ReceiptPrinter.Template.Value
import ReceiptPrinter.Text.Blank
import ReceiptPrinter.Text.Lowercase
import ReceiptPrinter.Text.Split

/-! # Contexts — variables and their scopes

    Keys are compared in lower case.  A path is looked up by its longest prefix of
    whole segments that is a key; the segments after it name members, each of the
    value before it.  A scope is a copy of the bindings at the time it was opened,
    and closing it brings that copy back. -/

namespace ReceiptPrinter

/-- Values by lower-case key, the latest first. -/
abbrev Bindings (o : Type) := List (String × ValueOf o)

/-- Variable bindings and the scopes that are open. -/
structure Context (o : Type := Object) where
  bindings : Bindings o
  scopes : List (Bindings o)

namespace Context

variable {o : Type}

/-- The context without bindings. -/
def empty : Context o := ⟨[], []⟩

/-- Binds a key to a value. -/
def bind (c : Context o) (key : String) (value : ValueOf o) : Context o :=
  { c with bindings := (Text.lowercase key, value) :: c.bindings }

/-- Binds a key that is not blank to a value. -/
def add (c : Context o) (key : String) (value : ValueOf o) : Except Error (Context o) :=
  if Text.allBlank key then .error .blankKey else .ok (c.bind key value)

/-- Binds keys one after the other up to the first blank one: the bindings made, and
    the error if there was one. -/
def addRange (c : Context o) : List (String × ValueOf o) → Context o × Option Error
  | [] => (c, none)
  | (key, value) :: rest =>
    match c.add key value with
    | .ok added => added.addRange rest
    | .error e => (c, some e)

/-- The value that a key is bound to. -/
def bound? (c : Context o) (key : String) : Option (ValueOf o) :=
  c.bindings.lookup (Text.lowercase key)

/-- The key that segments of a path make. -/
def pathOf (segments : List (List Char)) : String :=
  String.ofList (Text.joinWith '.' segments)

/-- The longest prefix of at most `limit` segments that is bound: its value, and the
    segments after it. -/
def longestBound? (c : Context o) (segments : List (List Char)) :
    Nat → Option (ValueOf o × List String)
  | 0 => none
  | limit + 1 =>
    match c.bound? (pathOf (segments.take (limit + 1))) with
    | some v => some (v, (segments.drop (limit + 1)).map String.ofList)
    | none => c.longestBound? segments limit

/-- Opens a scope. -/
def pushScope (c : Context o) : Context o :=
  { c with scopes := c.bindings :: c.scopes }

/-- Closes the scope opened last. -/
def popScope (c : Context o) : Except Error (Context o) :=
  match c.scopes with
  | [] => .error .noScope
  | saved :: rest => .ok ⟨saved, rest⟩

/-- How many scopes are open. -/
def depth (c : Context o) : Nat :=
  c.scopes.length

/-- Binds the variable of a loop, which takes an open scope. -/
def setLoopVariable (c : Context o) (name : String) (value : ValueOf o) :
    Except Error (Context o) :=
  if c.scopes.isEmpty then .error (.loopOutsideScope name) else c.add name value

/-- Opening a scope, binding a variable in it and closing it changes nothing. -/
theorem popScope_setLoopVariable {c inner : Context o} {name : String} {value : ValueOf o}
    (h : c.pushScope.setLoopVariable name value = .ok inner) : inner.popScope = .ok c := by
  rw [setLoopVariable, pushScope, if_neg (by simp), add] at h
  split at h
  · cases h
  · cases h
    rfl

/-- The key of an object's member, alone or below a name. -/
def fieldKey (under : Option String) (name : String) : String :=
  match under with
  | some outer => if outer = "" then name else outer ++ "." ++ name
  | none => name

variable [Members o]

/-- Binds the members of an object, alone or below a name.  A member that has a name
    but is not there counts as nothing. -/
def addObject (c : Context o) (x : o) (under : Option String) : Context o :=
  (Members.names x).foldl
    (fun c name => c.bind (fieldKey under name) ((Members.member? x name).getD .null)) c

/-- Binds the fields of a record, alone or below a name. -/
def addRecord (c : Context) (r : Record Value) (under : Option String) : Context :=
  c.addObject ⟨r⟩ under

/-- The context of a value: the members of an object, or `model` for any other
    value. -/
def ofValue : ValueOf o → Context o
  | .object x => empty.addObject x none
  | other => empty.bind "model" other

/-- The member that names lead to; there is none past a missing member or past
    nothing. -/
def resolve? : ValueOf o → List String → Option (ValueOf o)
  | v, [] => some v
  | v, name :: rest =>
    if v.isNull then none else (v.member? name).bind fun member => resolve? member rest

/-- The value that a key or a path stands for. -/
def get? (c : Context o) (path : String) : Option (ValueOf o) :=
  let segments := Text.splitAtEach '.' path.toList
  (c.longestBound? segments segments.length).bind fun (v, names) => resolve? v names

/-- Whether a path stands for a value, be it nothing. -/
def contains (c : Context o) (path : String) : Bool :=
  (c.get? path).isSome

end Context

end ReceiptPrinter
