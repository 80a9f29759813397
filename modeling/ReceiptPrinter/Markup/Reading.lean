import ReceiptPrinter.Error
import ReceiptPrinter.Markup.Element
import ReceiptPrinter.Text.Blank
import ReceiptPrinter.Xml.Tree

/-! # Reading markup — elements out of XML

    Markup is an XML document.  Of it an element keeps its local name and its
    attributes outside namespaces.  A piece of text that is all blank is dropped,
    whatever separates it from the next piece, and the pieces that are left between
    two elements become one. -/

namespace ReceiptPrinter.Markup

/-- The attributes outside namespaces. -/
def plainAttributes (attributes : List Xml.Attribute) : Attributes :=
  attributes.filterMap fun a => if a.space = none then some (a.name, a.value) else none

/-- Puts text in front of nodes, into the text that they start with if they do. -/
def prependText (content : String) : List Node → List Node
  | .text next :: rest => .text (content ++ next) :: rest
  | nodes => .text content :: nodes

mutual

/-- The children that a part of a document adds in front of those after it. -/
def addNode (after : List Node) : Xml.Node → List Node
  | .text content => if Text.allBlank content then after else prependText content after
  | .comment => after
  | .instruction => after
  | .element name attributes children =>
    .element name (plainAttributes attributes) (ofXmlNodes children) :: after

/-- The children that the parts of a document make. -/
def ofXmlNodes : List Xml.Node → List Node
  | [] => []
  | n :: rest => addNode (ofXmlNodes rest) n

end

/-- The element that the element of a document is; a part that is none makes none. -/
def Element.ofXml? : Xml.Node → Option Element
  | .element name attributes children =>
    some ⟨name, plainAttributes attributes, ofXmlNodes children⟩
  | _ => none

/-- Reads markup, given how documents are read. -/
def parseWith (read? : String → Option Xml.Node) (s : String) : Except Error Element :=
  match (read? s).bind Element.ofXml? with
  | some e => .ok e
  | none => .error (.malformedMarkup "the document is not well formed")

/-- Reads markup. -/
def parse (s : String) : Except Error Element :=
  parseWith Xml.parse? s

end ReceiptPrinter.Markup
