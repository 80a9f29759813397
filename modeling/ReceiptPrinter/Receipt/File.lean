import ReceiptPrinter.Files.Access
import ReceiptPrinter.Markup.Reading
import ReceiptPrinter.Receipt.Compile

/-! # Markup files — a receipt and its images

    A markup file is read, then the images that its receipt prints.  Relative image
    paths are seen from the directory of the markup file unless the settings name a
    directory. -/

namespace ReceiptPrinter

/-- The paths of the images that are read before the first step that fails. -/
def Step.imagePaths : List Step → List String
  | [] => []
  | .command _ :: rest => imagePaths rest
  | .image path _ :: rest => path :: imagePaths rest
  | .fault _ :: _ => []

/-- Files by path, as they were read. -/
abbrev Loaded := List (String × Except FileFault Bytes)

/-- The content of a file that was read. -/
def Loaded.content (files : Loaded) (path : String) : Except FileFault Bytes :=
  (files.lookup path).getD (.error .notFound)

namespace Settings

variable {m : Type → Type} {handle : Type} [Monad m] [FileAccess m handle]
  {o : Type} [Members o]

/-- The settings for markup in a file. -/
def beside (s : Settings) (path : String) : Settings :=
  match s.baseDir with
  | some _ => s
  | none => { s with baseDir := Path.parent? path }

/-- The bytes of a receipt whose images are read, and the context afterwards. -/
def compileReading (s : Settings) (root : Markup.Element) (c : Option (Context o)) :
    m (Except Error Bytes × Option (Context o)) := do
  let (parts, c) := s.plan root c
  match parts with
  | .error e => pure (.error e, c)
  | .ok parts =>
    let files : Loaded ← (Step.imagePaths parts).mapM fun path => do
      pure (path, ← FileAccess.read path)
    pure (Step.allBytes files.content parts, c)

/-- The bytes of the receipt in a markup file, and the context afterwards. -/
def compileFile (s : Settings) (path : String) (c : Option (Context o)) :
    m (Except Error Bytes × Option (Context o)) := do
  match ← readText path with
  | .error fault => pure (.error (.file fault), c)
  | .ok text =>
    match Markup.parse text with
    | .error e => pure (.error e, c)
    | .ok root => (s.beside path).compileReading root c

end Settings

end ReceiptPrinter
