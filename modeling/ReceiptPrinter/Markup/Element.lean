/-! # Elements — the trees of receipt markup

    An element has a name, attributes and children, which are elements and pieces of
    text in their order.  Of several attributes with one name the first counts. -/

namespace ReceiptPrinter.Markup

/-- Attributes by name, in their order. -/
abbrev Attributes := List (String × String)

/-- A child of an element. -/
inductive Node where
  | text (content : String)
  | element (name : String) (attributes : Attributes) (children : List Node)

/-- An element of receipt markup. -/
structure Element where
  name : String
  attributes : Attributes
  children : List Node

namespace Attributes

/-- The value of an attribute. -/
def get? (attributes : Attributes) (name : String) : Option String :=
  attributes.lookup name

/-- The value of an attribute that is not empty. -/
def nonEmpty? (attributes : Attributes) (name : String) : Option String :=
  (attributes.get? name).filter (· ≠ "")

end Attributes

/-- The name of a child that is an element. -/
def Node.name? : Node → Option String
  | .text _ => none
  | .element name _ _ => some name

/-- The pieces of text among nodes, joined. -/
def directText (nodes : List Node) : String :=
  String.join (nodes.filterMap fun
    | .text content => some content
    | .element .. => none)

namespace Element

/-- The element as a child. -/
def toNode (e : Element) : Node :=
  .element e.name e.attributes e.children

/-- The text that stands directly in an element. -/
def text (e : Element) : String :=
  directText e.children

/-- The names of the elements that stand directly in an element. -/
def childNames (e : Element) : List String :=
  e.children.filterMap Node.name?

end Element

end ReceiptPrinter.Markup
