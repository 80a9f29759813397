import ReceiptPrinter.Command.Barcode
import ReceiptPrinter.Error
import ReceiptPrinter.Markup.Element
import ReceiptPrinter.Number.Integer
import ReceiptPrinter.Text.Blank

/-! # The vocabulary — what receipt markup may be

    The elements of receipt markup: what each may contain, which attributes it takes,
    and what their values may be.  Checking a tree collects every violation, those of
    an element before those of the elements in it. -/

namespace ReceiptPrinter.Markup

/-- What an attribute value may be. -/
inductive ValueKind where
  | any
  /-- An integer, both ends included. -/
  | range (least greatest : Int)
  | oneOf (allowed : List String)
  /-- One of some words in any letter case. -/
  | oneOfAnyCase (allowed : List String)
deriving DecidableEq, Repr

/-- An attribute that an element takes. -/
structure AttributeRule where
  name : String
  kind : ValueKind
  required : Bool
deriving DecidableEq, Repr

/-- What an element may contain. -/
inductive Content where
  /-- Nothing. -/
  | empty
  /-- Text alone. -/
  | text
  /-- Text and elements. -/
  | mixed
deriving DecidableEq, Repr

/-- An element of the vocabulary. -/
structure ElementRule where
  name : String
  content : Content
  attributes : List AttributeRule
deriving DecidableEq, Repr

/-- An attribute that may be missing. -/
def optional (name : String) (kind : ValueKind) : AttributeRule :=
  ⟨name, kind, false⟩

/-- An attribute that must be there and not be empty. -/
def required (name : String) : AttributeRule :=
  ⟨name, .any, true⟩

/-- The integers of a byte. -/
def byteRange : ValueKind :=
  .range 0 255

/-- The attribute that names an encoding. -/
def encodingRule : AttributeRule :=
  optional "encoding" .any

/-- The vocabulary. -/
def elements : List ElementRule := [
  ⟨"receipt", .mixed, [encodingRule]⟩,
  ⟨"initialize", .empty, []⟩,
  ⟨"text", .text, [encodingRule]⟩,
  ⟨"line", .text, [encodingRule]⟩,
  ⟨"bold", .mixed, [encodingRule]⟩,
  ⟨"underline", .mixed, [optional "mode" byteRange, encodingRule]⟩,
  ⟨"invert", .mixed, [encodingRule]⟩,
  ⟨"size", .mixed,
    [optional "width" (.range 1 8), optional "height" (.range 1 8), encodingRule]⟩,
  ⟨"align", .mixed, [optional "value" (.oneOf ["left", "center", "right"]), encodingRule]⟩,
  ⟨"font", .mixed, [optional "name" (.oneOf ["A", "B"]), encodingRule]⟩,
  ⟨"rotate90", .mixed, [encodingRule]⟩,
  ⟨"qrcode", .empty,
    [required "data", optional "size" (.range 1 16),
      optional "errorLevel" (.oneOf ["L", "M", "Q", "H"])]⟩,
  ⟨"barcode", .empty,
    [optional "type" (.oneOfAnyCase (barcodeKinds.map Prod.fst)), required "data",
      optional "height" byteRange, optional "width" byteRange,
      optional "hri" (.oneOf ["none", "above", "below", "both"])]⟩,
  ⟨"image", .empty, [required "path", optional "fn" (.oneOf ["2", "50"])]⟩,
  ⟨"feed", .empty, [optional "lines" byteRange, optional "dots" byteRange]⟩,
  ⟨"cut", .empty, [optional "type" (.oneOf ["full", "partial"]), optional "feed" byteRange]⟩,
  ⟨"drawer", .empty,
    [optional "pin" (.oneOf ["2", "5"]), optional "onTime" byteRange,
      optional "offTime" byteRange]⟩,
  ⟨"beep", .empty, [optional "times" byteRange, optional "duration" byteRange]⟩,
  ⟨"spacing", .empty, [optional "character" byteRange, optional "line" byteRange]⟩,
  ⟨"margin", .empty, [optional "left" (.range 0 65535)]⟩,
  ⟨"codepage", .empty, [optional "value" byteRange]⟩,
  ⟨"for", .mixed, [required "var", required "in", encodingRule]⟩,
  ⟨"if", .mixed, [required "condition", encodingRule]⟩]

/-- The rule of an element. -/
def rule? (name : String) : Option ElementRule :=
  elements.find? (·.name == name)

/-- The rule of an attribute of an element. -/
def ElementRule.attribute? (r : ElementRule) (name : String) : Option AttributeRule :=
  r.attributes.find? (·.name == name)

/-- What is wrong with the value of an attribute. -/
def AttributeRule.breach? (a : AttributeRule) (value : String) : Option Breach :=
  match a.kind with
  | .any => none
  | .range least greatest =>
    match Number.integer64? (Text.trimChars value.toList) with
    | none => some (.notInteger a.name value)
    | some n =>
      if least ≤ n ∧ n ≤ greatest then none else some (.outside a.name n least greatest)
  | .oneOf allowed =>
    if allowed.contains value then none else some (.notListed a.name value allowed)
  | .oneOfAnyCase allowed =>
    if allowed.any (Text.sameName · value) then none else some (.notListed a.name value allowed)

namespace ElementRule

/-- What is wrong with the attributes that an element has. -/
def attributeBreaches (r : ElementRule) (attributes : Attributes) : List Breach :=
  attributes.filterMap fun (name, value) =>
    match r.attribute? name with
    | some a => a.breach? value
    | none => some (.notAllowed name r.name)

/-- The attributes that an element lacks. -/
def missingBreaches (r : ElementRule) (attributes : Attributes) : List Breach :=
  (r.attributes.filter (·.required)).filterMap fun a =>
    if attributes.nonEmpty? a.name = none then some (.missing a.name) else none

/-- What is wrong with a child standing in an element. -/
def childBreach? (r : ElementRule) (child : Node) : Option Breach :=
  match r.content, child.name? with
  | .empty, none => some (.notEmpty r.name)
  | .empty, some name => some (.misplaced name r.name)
  | .text, some name => some (.misplaced name r.name)
  | .mixed, some name => if name = "receipt" then some .nestedReceipt else none
  | _, none => none

/-- Everything that is wrong with an element by itself. -/
def breaches (r : ElementRule) (attributes : Attributes) (children : List Node) : List Breach :=
  r.attributeBreaches attributes ++ r.missingBreaches attributes ++
    children.filterMap r.childBreach?

end ElementRule

/-- The path of a child element. -/
def childPath (path name : String) (place : Nat) : String :=
  s!"{path}/{name}[{place}]"

mutual

/-- The violations of an element and of the elements in it. -/
def Node.violations (path : String) : Node → List Violation
  | .text _ => []
  | .element name attributes children =>
    match rule? name with
    | none => [⟨path, .unknownElement name⟩]
    | some r =>
      (r.breaches attributes children).map (Violation.mk path) ++
        if r.content = .mixed then childViolations path 1 children else []

/-- The violations of the elements among children, the first of which has the given
    place. -/
def childViolations (path : String) (place : Nat) : List Node → List Violation
  | [] => []
  | child :: rest =>
    match child.name? with
    | none => childViolations path place rest
    | some name =>
      child.violations (childPath path name place) ++ childViolations path (place + 1) rest

end

/-- The violations of a document, in the order of its elements. -/
def Element.violations (root : Element) : List Violation :=
  let path := s!"/{root.name}"
  (if root.name = "receipt" then [] else [⟨path, .rootName⟩]) ++ root.toNode.violations path

/-- Refuses a document with violations. -/
def Element.validate (root : Element) : Except Error Unit :=
  match root.violations with
  | [] => .ok ()
  | violations => .error (.invalid violations)

end ReceiptPrinter.Markup
