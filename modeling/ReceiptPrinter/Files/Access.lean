import ReceiptPrinter.Files.Fault
import ReceiptPrinter.Text.Utf8

/-! # Access — what is asked of a file system

    What the program asks of a file system: reading whole files, and writing files
    from their start. -/

namespace ReceiptPrinter

/-- A place where files are read and written; `handle` stands for a file open for
    writing. -/
class FileAccess (m : Type → Type) (handle : outParam Type) where
  /-- The content of a file. -/
  read : String → m (Except FileFault Bytes)
  /-- Opens a file for writing: one that is there is emptied, one that is not is
      made. -/
  create : String → m (Except FileFault handle)
  /-- Adds bytes to the end of an open file. -/
  write : handle → Bytes → m (Except FileFault Unit)
  /-- Waits for some milliseconds. -/
  pause : Nat → m Unit

/-- The content of a file that is a text. -/
def readText {m : Type → Type} {handle : Type} [Monad m] [FileAccess m handle] (path : String) :
    m (Except FileFault String) := do
  match ← FileAccess.read path with
  | .error fault => pure (.error fault)
  | .ok bytes =>
    match Utf8.strict? bytes with
    | some text => pure (.ok text)
    | none => pure (.error .notUtf8)

end ReceiptPrinter
