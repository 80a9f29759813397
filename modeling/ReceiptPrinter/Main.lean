import ReceiptPrinter.Cli.Run
import ReceiptPrinter.Files.Disk

/-! # The program — a command line and the files of the machine

    Runs a command line on the files of the machine. -/

namespace ReceiptPrinter

/-- The fault of a number and a text of the operating system. -/
def osFault (code : UInt32) (details : String) : FileFault :=
  match code with
  | 2 => .notFound
  | 20 => .notDirectory
  | 21 => .isDirectory
  | 36 => .nameTooLong
  | other => .other s!"{details} (os error {other})"

/-- The fault of an operation on files that failed. -/
def ioFault : IO.Error → FileFault
  | .noFileOrDirectory _ code details | .interrupted _ code details => osFault code details
  | .alreadyExists _ code details | .invalidArgument _ code details => osFault code details
  | .permissionDenied _ code details | .resourceExhausted _ code details => osFault code details
  | .inappropriateType _ code details | .noSuchThing _ code details => osFault code details
  | .otherError code details | .resourceBusy code details => osFault code details
  | .resourceVanished code details | .unsupportedOperation code details => osFault code details
  | .hardwareFault code details | .unsatisfiedConstraints code details => osFault code details
  | .illegalOperation code details | .protocolError code details => osFault code details
  | .timeExpired code details => osFault code details
  | .unexpectedEof => .other "unexpected end of file"
  | .userError reason => .other reason

/-- The result of an operation on the file at a path, or its fault. -/
def attempt {α : Type} (path : String) (action : IO α) : IO (Except FileFault α) :=
  match Disk.pathFault? path with
  | some fault => return .error fault
  | none => try return .ok (← action) catch e => return .error (ioFault e)

instance : FileAccess IO IO.FS.Handle where
  read path := attempt path do return (← IO.FS.readBinFile path).toList
  create path := attempt path (IO.FS.Handle.mk path .write)
  write file data :=
    try
      file.write (ByteArray.mk data.toArray)
      file.flush
      return .ok ()
    catch e => return .error (ioFault e)
  pause milliseconds := IO.sleep (UInt32.ofNat milliseconds)

end ReceiptPrinter

/-- Runs the program with its arguments. -/
def main (args : List String) : IO UInt32 := do
  let outcome ← ReceiptPrinter.Cli.run args
  IO.print outcome.stdout
  IO.eprint outcome.stderr
  return outcome.code
