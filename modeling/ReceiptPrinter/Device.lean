import ReceiptPrinter.Error
import ReceiptPrinter.Files.Access

/-! # Devices — sending print jobs to a file

    A device is a file or a device node.  It is opened and emptied at the first use,
    and every job is written after those before it, in chunks with a pause between
    them. -/

namespace ReceiptPrinter

/-- A file that print jobs are sent to. -/
structure Device (handle : Type) where
  path : String
  /-- The open file, once there is one. -/
  opened? : Option handle := none
  /-- The greatest number of bytes that are written at once. -/
  chunkSize : Nat := 4096
  chunkSize_pos : 0 < chunkSize := by decide
  /-- How many milliseconds pass between two chunks. -/
  delay : Nat := 0

/-- Data in chunks of a size, the last of which may be shorter. -/
def chunks (size : Nat) (h : 0 < size) (data : Bytes) : List Bytes :=
  match data with
  | [] => []
  | b :: rest => (b :: rest).take size :: chunks size h ((b :: rest).drop size)
termination_by data.length
decreasing_by simp only [List.length_drop, List.length_cons]; omega

/-- Chunks put together are the data. -/
theorem flatten_chunks (size : Nat) (h : 0 < size) (data : Bytes) :
    (chunks size h data).flatten = data := by
  fun_induction chunks size h data with
  | case1 => rfl
  | case2 b rest ih => rw [List.flatten_cons, ih, List.take_append_drop]

namespace Device

variable {m : Type → Type} {handle : Type}

/-- The device with another chunk size; a size of zero counts as one. -/
def withChunkSize (d : Device handle) (size : Nat) : Device handle :=
  { d with chunkSize := max size 1, chunkSize_pos := by omega }

/-- The device with another delay between chunks. -/
def withDelay (d : Device handle) (milliseconds : Nat) : Device handle :=
  { d with delay := milliseconds }

variable [Monad m] [FileAccess m handle]

/-- The open file of a device, which is opened if it is not yet. -/
def opened (d : Device handle) : m (Except Error handle × Device handle) := do
  match d.opened? with
  | some file => pure (.ok file, d)
  | none =>
    match ← FileAccess.create d.path with
    | .ok file => pure (.ok file, { d with opened? := some file })
    | .error fault => pure (.error (.deviceUnavailable d.path fault), d)

/-- Opens a device that is not open yet. -/
def connect (d : Device handle) : m (Except Error Unit × Device handle) := do
  let (file, d) ← d.opened
  pure (file.map fun _ => (), d)

/-- Writes chunks to an open file, with a pause between them. -/
def writeChunks (file : handle) (delay : Nat) : List Bytes → m (Except Error Unit)
  | [] => pure (.ok ())
  | chunk :: rest => do
    match ← FileAccess.write file chunk with
    | .error fault => pure (.error (.deviceFailed fault))
    | .ok () =>
      if 0 < delay && !rest.isEmpty then FileAccess.pause delay
      writeChunks file delay rest

/-- Sends a job to a device, which is opened if it is not yet. -/
def send (d : Device handle) (data : Bytes) : m (Except Error Unit × Device handle) := do
  let (file, d) ← d.opened
  match file with
  | .error e => pure (.error e, d)
  | .ok file =>
    let result ← writeChunks file d.delay (chunks d.chunkSize d.chunkSize_pos data)
    pure (result, d)

/-- A file has no status. -/
def status (d : Device handle) : Except Error Bytes :=
  .error (.writeOnly d.path)

end Device

end ReceiptPrinter
