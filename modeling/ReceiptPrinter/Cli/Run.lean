import ReceiptPrinter.Cli.Invocation
import ReceiptPrinter.Device
import ReceiptPrinter.Json.Basic
import ReceiptPrinter.Preview.TextPrinter
import ReceiptPrinter.Receipt.File

/-! # Running — files in, files out, an exit code

    A run reads files, writes at most one, and ends with what it prints and an exit
    code: 0 after success, 1 after an error, which is printed, and 2 for a command
    line that breaks a rule. -/

namespace ReceiptPrinter.Cli

/-- What a run leaves behind beside files. -/
structure Outcome where
  code : UInt32
  stdout : String
  stderr : String
deriving DecidableEq, Repr

/-- How the program is called. -/
def usage : String :=
  "Usage: receiptprinter <COMMAND>\n\n" ++
  "Commands:\n" ++
  "  compile <MARKUP> [--output <FILE>] [SOURCE OPTIONS]\n" ++
  "  decode <INPUT> [--width <WIDTH>]\n" ++
  "  preview <MARKUP> [--width <WIDTH>] [SOURCE OPTIONS]\n" ++
  "  print <MARKUP> [--device <DEVICE>] [SOURCE OPTIONS]\n\n" ++
  "Source options:\n" ++
  "  --data <FILE>\n  --options <FILE>\n  --encoding <ENCODING>\n" ++
  "  --no-validate\n  --max-loop-items <COUNT>\n"

namespace Outcome

/-- A command line that breaks a rule. -/
def misuse : Outcome := ⟨2, "", usage⟩

/-- A run that printed something and ended well or with an error. -/
def ofResult (printed : String) : Except Error String → Outcome
  | .ok more => ⟨0, printed ++ more, ""⟩
  | .error e => ⟨1, printed, s!"Error: {e.message}\n"⟩

end Outcome

variable {m : Type → Type} {handle : Type} [Monad m] [FileAccess m handle]

/-- Reads a JSON file by a reader. -/
def readJson {α : Type} (path : String) (read? : String → Option α) : m (Except Error α) := do
  match ← readText path with
  | .error fault => pure (.error (.file fault))
  | .ok text =>
    match read? text with
    | some value => pure (.ok value)
    | none => pure (.error (.malformedJson path "the text is not what it should be"))

/-- Reads what a JSON file that may be named holds; `missing` stands for no file. -/
def readJsonOr {α : Type} (path : Option String) (missing : α) (read? : String → Option α) :
    m (Except Error α) :=
  match path with
  | some path => readJson path read?
  | none => pure (.ok missing)

/-- Reads the context that a JSON text describes. -/
def readContext? (text : String) : Option (Option Context) :=
  (Json.read? text).map fun j => some (.ofJson j)

/-- Settings with the changes that a source asks for. -/
def Source.adjust (source : Source) (s : Settings) : Settings where
  validate := s.validate && !source.skipValidation
  encoding := source.encoding.getD s.encoding
  maxLoopItems := source.maxLoopItems <|> s.maxLoopItems
  baseDir := s.baseDir

/-- The bytes of a source: its settings are read first, then its data, then the
    markup. -/
def Source.compile (source : Source) : m (Except Error Bytes) := do
  match ← readJsonOr source.options {} Settings.read? with
  | .error e => pure (.error e)
  | .ok settings =>
    match ← readJsonOr source.data none readContext? with
    | .error e => pure (.error e)
    | .ok context =>
      let (result, _) ← (source.adjust settings).compileFile source.markup context
      pure result

/-- The text of a print job on lines of the width that was asked for. -/
def shown (bytes : Bytes) (width : Option Nat) : Except Error String :=
  TextPrinter.decode bytes (width.getD ({} : PreviewSettings).lineWidth)

/-- Replaces the content of a file. -/
def writeFile (path : String) (bytes : Bytes) : m (Except Error Unit) := do
  match ← FileAccess.create path with
  | .error fault => pure (.error (.file fault))
  | .ok file => return (← FileAccess.write file bytes).mapError .file

/-- Opens a device and sends bytes to it. -/
def sendTo (path : String) (bytes : Bytes) : m (Except Error Unit) := do
  let (result, device) ← Device.connect { path }
  match result with
  | .error e => pure (.error e)
  | .ok () => return (← device.send bytes).1

/-- Does what a command line asks for. -/
def Invocation.run : Invocation → m Outcome
  | .compile source output => do
    match ← source.compile with
    | .error e => pure (.ofResult "" (.error e))
    | .ok bytes =>
      let output := output.getD (Path.withExtension source.markup "bin")
      let written ← writeFile output bytes
      pure (.ofResult ""
        (written.map fun _ => s!"Compiled {bytes.length} bytes to {output}\n"))
  | .decode input width => do
    match ← FileAccess.read input with
    | .error fault => pure (.ofResult "" (.error (.file fault)))
    | .ok bytes => pure (.ofResult "" (shown bytes width))
  | .preview source width => do
    let bytes ← source.compile
    pure (.ofResult "" (bytes.bind (shown · width)))
  | .print source path => do
    match ← source.compile with
    | .error e => pure (.ofResult "" (.error e))
    | .ok bytes =>
      let sent ← sendTo path bytes
      pure (.ofResult s!"Sending {bytes.length} bytes to {path}...\n"
        (sent.map fun _ => "Printed successfully!\n"))

/-- Runs the program. -/
def run (args : List String) : m Outcome :=
  match Invocation.read? args with
  | some invocation => invocation.run
  | none => pure .misuse

end ReceiptPrinter.Cli
