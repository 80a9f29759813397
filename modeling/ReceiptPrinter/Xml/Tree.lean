import ReceiptPrinter.Xml.Token

/-! # XML trees — elements and what is in them

    The tokens of a document make a tree when every element is closed by its own name
    and there is one element outside all others.  Prefixes of names have to be
    declared; an element keeps the local part of its name, and an attribute also
    whether it belongs to a namespace.  Text and character data that touch are one
    piece of text; comments and instructions stay in the tree, because they separate
    pieces. -/

namespace ReceiptPrinter.Xml

/-- An attribute with its value read. -/
structure Attribute where
  /-- The namespace of the name, if it has one. -/
  space : Option String
  name : String
  value : String
deriving DecidableEq, Repr

/-- A part of a document. -/
inductive Node where
  | text (content : String)
  | comment
  | instruction
  | element (name : String) (attributes : List Attribute) (children : List Node)

/-- The namespaces that prefixes stand for, the innermost first. -/
abbrev Spaces := List (String × String)

/-- How the names of the two reserved namespaces begin. -/
def reservedStart : String := "http://www.w3.org/"

/-- The namespace of the prefix `xml`. -/
def xmlSpace : String := reservedStart ++ "XML/1998/namespace"

/-- The namespace of namespace declarations. -/
def xmlnsSpace : String := reservedStart ++ "2000/xmlns/"

/-- Sorts the attributes of a start tag, their values read, into the prefixes
    declared and the attributes proper.  The two reserved namespaces are not for
    declaring, and a prefix is declared once. -/
def sortAttributes (declared : Spaces) (proper : List (QName × String)) :
    List (QName × String) → Option (Spaces × List (QName × String))
  | [] => some (declared, proper.reverse)
  | (name, value) :: rest =>
    if name.before = "xmlns" then
      if value = xmlnsSpace then none
      else if name.name = "xml" then
        if value = xmlSpace then sortAttributes declared proper rest else none
      else if value = xmlSpace then none
      else if declared.any (fun d => d.1 == name.name) then none
      else sortAttributes ((name.name, value) :: declared) proper rest
    else if name.name = "xmlns" then
      if value = xmlnsSpace ∨ value = xmlSpace then none
      else sortAttributes declared proper rest
    else sortAttributes declared ((name, value) :: proper) rest

/-- The namespace of an attribute: none without a prefix; a prefix must be
    declared. -/
def attributeSpace? (spaces : Spaces) (before : String) : Option (Option String) :=
  if before = "" then some none
  else if before = "xml" then some (some xmlSpace)
  else (spaces.lookup before).map some

/-- The attributes of an element in scope of some namespaces; no two have one
    name. -/
def bindAttributes (spaces : Spaces) (bound : List Attribute) :
    List (QName × String) → Option (List Attribute)
  | [] => some bound.reverse
  | (name, value) :: rest =>
    match attributeSpace? spaces name.before with
    | none => none
    | some space =>
      if bound.any fun a => a.space == space && a.name == name.name then none
      else bindAttributes spaces (⟨space, name.name, value⟩ :: bound) rest

/-- Reads the values of attributes. -/
def readValues : List (QName × List Char) → Option (List (QName × String))
  | [] => some []
  | (name, written) :: rest =>
    match attributeText? written, readValues rest with
    | some value, some others => some ((name, String.ofList value) :: others)
    | _, _ => none

/-- An element that is open: its name, its attributes, its children so far, the last
    one first, and the namespaces in scope. -/
structure Frame where
  name : QName
  attributes : List Attribute
  children : List Node
  spaces : Spaces

/-- Opens an element in scope of some namespaces. -/
def Frame.open? (spaces : Spaces) (name : QName) (written : List (QName × List Char)) :
    Option Frame := do
  let values ← readValues written
  let (declared, proper) ← sortAttributes [] [] values
  let inner := declared ++ spaces
  if name.before = "xmlns" then none
  else if name.before ≠ "" ∧ inner.lookup name.before = none then none
  else
    let attributes ← bindAttributes inner [] proper
    some ⟨name, attributes, [], inner⟩

/-- The element that a frame has become. -/
def Frame.close (f : Frame) : Node :=
  .element f.name.name f.attributes f.children.reverse

/-- Adds a child that is no text. -/
def Frame.addChild (f : Frame) (child : Node) : Frame :=
  { f with children := child :: f.children }

/-- Adds text, to the piece of text before it if there is one. -/
def Frame.addText (f : Frame) (content : String) : Frame :=
  match f.children with
  | .text before :: rest => { f with children := .text (before ++ content) :: rest }
  | children => { f with children := .text content :: children }

/-- A document while it is read: the elements that are open, the innermost first, and
    the element outside all others once it is closed. -/
structure Builder where
  frames : List Frame
  root : Option Node

/-- Adds an element that is closed. -/
def Builder.addElement (b : Builder) (e : Node) : Builder :=
  match b.frames with
  | [] => { b with root := some e }
  | f :: rest => { b with frames := f.addChild e :: rest }

/-- Adds a comment or an instruction; outside the element they leave no trace. -/
def Builder.addAside (b : Builder) (aside : Node) : Builder :=
  match b.frames with
  | [] => b
  | f :: rest => { b with frames := f.addChild aside :: rest }

/-- Takes a token.  Outside the element only spaces are text. -/
def Builder.take (b : Builder) (t : Token) : Option Builder :=
  match t, b.frames with
  | .opening name written closed, frames =>
    if frames.isEmpty && b.root.isSome then none
    else
      let spaces := match frames with
        | [] => []
        | f :: _ => f.spaces
      (Frame.open? spaces name written).map fun f =>
        if closed then b.addElement f.close else { b with frames := f :: frames }
  | .closing name, f :: rest =>
    if f.name = name then some (Builder.addElement { b with frames := rest } f.close) else none
  | .closing _, [] => none
  | .comment, _ => some (b.addAside .comment)
  | .instruction, _ => some (b.addAside .instruction)
  | .text written, f :: rest =>
    (contentText? written).map fun content =>
      { b with frames := f.addText (String.ofList content) :: rest }
  | .text written, [] => if written.all isSpace then some b else none
  | .data written, f :: rest =>
    some { b with frames := f.addText (String.ofList (uniformLines written)) :: rest }
  | .data _, [] => none

/-- Takes tokens one after the other. -/
def Builder.takeAll (b : Builder) : List Token → Option Builder
  | [] => some b
  | t :: rest => (b.take t).bind fun next => next.takeAll rest

/-- The element of a document. -/
def parse? (s : String) : Option Node :=
  match (tokens? s).bind (Builder.takeAll ⟨[], none⟩) with
  | some ⟨[], root⟩ => root
  | _ => none

end ReceiptPrinter.Xml
