import ReceiptPrinter.Image.Bmp

/-! # Steps — what a receipt becomes before its images are read

    Markup becomes a list of steps.  Each is a command, an image whose file is still
    to be read, or an error that ends the job.  The first step that fails is the
    error of the whole. -/

namespace ReceiptPrinter

/-- A step of a print job. -/
inductive Step where
  | command (c : Command)
  /-- Prints the image in a file by one of the functions for stored graphics. -/
  | image (path : String) (function : UInt8)
  | fault (e : Error)
deriving DecidableEq

namespace Step

/-- The bytes of a step. -/
def bytes (load : String → Except FileFault Bytes) : Step → Except Error Bytes
  | .command c => c.encode
  | .image path function =>
    match load path with
    | .error reason => .error (.namedFile path reason)
    | .ok data => Bmp.print data.toArray function
  | .fault e => .error e

/-- The bytes of steps one after the other, or the error of the first that fails. -/
def allBytes (load : String → Except FileFault Bytes) (steps : List Step) :
    Except Error Bytes :=
  (steps.mapM (bytes load)).map List.flatten

theorem allBytes_cons (load : String → Except FileFault Bytes) (step : Step) (rest : List Step) :
    allBytes load (step :: rest) =
      (step.bytes load).bind fun a => (allBytes load rest).map fun b => a ++ b := by
  rw [allBytes, List.mapM_cons, allBytes]
  cases step.bytes load with
  | error e => rfl
  | ok a => cases rest.mapM (bytes load) <;> rfl

/-- Steps whose bytes are all known give them in their order. -/
theorem allBytes_append (load : String → Except FileFault Bytes) (xs ys : List Step) :
    allBytes load (xs ++ ys) =
      (allBytes load xs).bind fun a => (allBytes load ys).map fun b => a ++ b := by
  simp only [allBytes, List.mapM_append]
  cases xs.mapM (bytes load) with
  | error e => rfl
  | ok a =>
    cases ys.mapM (bytes load) with
    | error e => rfl
    | ok b => simp [bind, Except.bind, Except.map, pure, Except.pure]

end Step

end ReceiptPrinter
