import ReceiptPrinter.Files.Path
import ReceiptPrinter.Markup.Schema
import ReceiptPrinter.Receipt.Tag
import ReceiptPrinter.Receipt.Walk
import ReceiptPrinter.Settings

/-! # Compiling — from elements to bytes

    A receipt is walked element by element.  Text is encoded as the nearest element
    around it that names an encoding says.  A style holds for the content of its
    element and is reset after it.  Conditions and loops look at the context; an
    element that is not in the vocabulary stands for its content. -/

namespace ReceiptPrinter

open Markup (Node Element Attributes directText)

/-- The file of an image seen from the base directory of the settings. -/
def Settings.locate (s : Settings) (path : String) : String :=
  match s.baseDir with
  | some base => Path.join base path
  | none => path

variable {o : Type}

namespace Walk

/-- What is wrong with the number of items that a loop runs over. -/
def loopFault? (s : Settings) (source : String) (items : List (ValueOf o)) : Option Error :=
  match s.maxLoopItems with
  | some limit =>
    if limit < items.length then some (.tooManyItems source items.length limit) else none
  | none => none

/-- The walk over the items of a value. -/
def overItems (s : Settings) (name source : String) (content : Walk o) : Option (ValueOf o) → Walk o
  | none => nothing
  | some .null => nothing
  | some (.list items) =>
    match loopFault? s source items with
    | some e => fail e
    | none => forEach name content items
  | some _ => fail (.notEnumerable source)

/-- The walk of a content between two styles. -/
def between (on off : Style) (content : Walk o) : Walk o :=
  ((steps fun _ => [.command (.style on)]).followedBy content).followedBy
    (steps fun _ => [.command (.style off)])

/-- The steps, or the error that stands in their place. -/
def ofSteps (parts : Except Error (List Step)) : List Step :=
  match parts with
  | .ok parts => parts
  | .error e => [.fault e]

/-- The encoding of an element: the one that it names, or the one around it. -/
def encodingOf (e : Encoding) (attributes : Attributes) : Except Error Encoding :=
  match attributes.nonEmpty? "encoding" with
  | some name => Encoding.ofName name
  | none => .ok e

variable [Members o]

/-- The walk of an element that takes its content when a condition holds. -/
def conditional (t : Tag) (content : Walk o) : Walk o :=
  match t.required "condition" with
  | .error e => fail e
  | .ok condition =>
    choose t.name fun c => if (c.get? condition).any ValueOf.isTruthy then content else nothing

/-- The walk of an element that repeats its content. -/
def loop (s : Settings) (t : Tag) (content : Walk o) : Walk o :=
  match t.required "var" with
  | .error e => fail e
  | .ok name =>
    match t.required "in" with
    | .error e => fail e
    | .ok source => choose t.name fun c => overItems s name source content (c.get? source)

/-- The walk of an element, given its own text and the walk of its content. -/
def element (s : Settings) (e : Encoding) (t : Tag) (text : String) (content : Walk o) : Walk o :=
  match t.name with
  | "text" => steps fun c => [.command (.text e (fill c text))]
  | "line" => steps fun c => [.command (.line e (fill c text))]
  | "if" => conditional t content
  | "for" => loop s t content
  | _ =>
    match t.styles?, t.commands?, t.filledSteps? s.locate with
    | some (.ok (on, off)), _, _ => between on off content
    | some (.error e), _, _ => fail e
    | none, some parts, _ => steps fun _ => ofSteps (parts.map (·.map .command))
    | none, none, some parts => steps fun c => ofSteps (parts (fill c))
    | none, none, none => content

mutual

/-- The walk of a child.  Text that is all blank is left out. -/
def node (s : Settings) (e : Encoding) : Node → Walk o
  | .text content =>
    if Text.allBlank content then nothing
    else steps fun c => [.command (.text e (fill c content))]
  | .element name attributes children =>
    match encodingOf e attributes with
    | .error fault => fail fault
    | .ok e => element s e ⟨name, attributes⟩ (directText children) (nodes s e children)

/-- The walk of children one after the other. -/
def nodes (s : Settings) (e : Encoding) : List Node → Walk o
  | [] => nothing
  | child :: rest => (node s e child).followedBy (nodes s e rest)

end

end Walk

variable [Members o]

/-- The steps of a receipt, and the context afterwards.  The markup is checked before
    anything else if the settings ask for it. -/
def Settings.plan (s : Settings) (root : Element) (c : Option (Context o)) :
    Except Error (List Step) × Option (Context o) :=
  let checked := if s.validate then root.validate else .ok ()
  match checked, Encoding.ofName s.encoding with
  | .error e, _ => (.error e, c)
  | .ok (), .error e => (.error e, c)
  | .ok (), .ok e =>
    let (parts, c) := (Walk.node s e root.toNode).run c
    (.ok parts, c)

/-- The bytes of a receipt, and the context afterwards; `load` reads the files of its
    images. -/
def Settings.compile (s : Settings) (load : String → Except FileFault Bytes) (root : Element)
    (c : Option (Context o)) : Except Error Bytes × Option (Context o) :=
  let (parts, c) := s.plan root c
  (parts.bind (Step.allBytes load), c)

end ReceiptPrinter
