import ReceiptPrinter.Device
import ReceiptPrinter.Proofs.Files.Writing

/-! # Delivery — what the file of a device holds

    A device is opened at the first call that needs its file, and opening empties
    the file.  From then on each job is added to the end of it, in chunks whose
    size may be changed between any two jobs.

    On an open device any calls add the bytes that they send, in their order, and
    do nothing else (`after_of_open`); so the file is never emptied a second time,
    and no chunk is lost, sent twice or sent early.  On a device that is not open,
    calls before the first that opens it leave everything alone.  If it cannot be
    opened then those calls fail and the device stays as it was, so that it can
    still be opened once its path can be written to. -/

namespace ReceiptPrinter.Device

/-! ## Calls -/

/-- A call on a device. -/
inductive Call where
  | connect
  | send (data : Bytes)
  | setChunkSize (size : Nat)
  | setDelay (milliseconds : Nat)

namespace Call

/-- Whether a call opens the device. -/
def opens : Call → Bool
  | .connect => true
  | .send _ => true
  | .setChunkSize _ => false
  | .setDelay _ => false

/-- The bytes that a call sends. -/
def data : Call → Bytes
  | .send data => data
  | _ => []

/-- A device with what a call sets. -/
def configure {handle : Type} (d : Device handle) : Call → Device handle
  | .setChunkSize size => d.withChunkSize size
  | .setDelay milliseconds => d.withDelay milliseconds
  | _ => d

end Call

section

variable {m : Type → Type} {handle : Type} [Monad m] [FileAccess m handle]

/-- Makes a call. -/
def perform (d : Device handle) : Call → m (Except Error Unit × Device handle)
  | .connect => d.connect
  | .send data => d.send data
  | .setChunkSize size => pure (.ok (), d.withChunkSize size)
  | .setDelay milliseconds => pure (.ok (), d.withDelay milliseconds)

/-- Makes calls one after the other, whatever the answers are. -/
def performAll (d : Device handle) : List Call → m (List (Except Error Unit) × Device handle)
  | [] => pure ([], d)
  | call :: rest => do
    let (answer, d) ← d.perform call
    let (answers, d) ← d.performAll rest
    pure (answer :: answers, d)

end

/-- What calls come to: an answer to each of them, and the device and the disk that
    they leave. -/
structure Outcome where
  answers : List (Except Error Unit)
  device : Device Place
  disk : Disk

/-- What calls on a device come to when its file is on a disk. -/
def after (d : Device Place) (disk : Disk) (calls : List Call) : Outcome :=
  let ((answers, device), disk) := (d.performAll calls : StateM Disk _).run disk
  ⟨answers, device, disk⟩

/-- Calls on a device put the bytes that they send into its file, in their order,
    and nothing else, and they touch no other file. -/
structure Delivers (d : Device Place) (disk : Disk) (place : Place) (calls : List Call) :
    Prop where
  answers : (d.after disk calls).answers = calls.map fun _ => .ok ()
  file : calls.any Call.opens = true →
    (d.after disk calls).disk.read d.path = .ok (calls.flatMap Call.data)
  untouched : calls.any Call.opens = false → (d.after disk calls).disk = disk
  others : ∀ other, other ≠ place → (d.after disk calls).disk.content? other = disk.content? other

/-- Calls that would open a device fail with an error of the transport, and the
    device stays closed and the disk as it was. -/
structure Refuses (d : Device Place) (disk : Disk) (fault : FileFault) (calls : List Call) :
    Prop where
  answers : (d.after disk calls).answers
    = calls.map fun call => if call.opens then .error (.deviceUnavailable d.path fault) else .ok ()
  transport : ∀ e, .error e ∈ (d.after disk calls).answers → e.category = .transport
  unopened : (d.after disk calls).device.opened? = none
  path : (d.after disk calls).device.path = d.path
  disk : (d.after disk calls).disk = disk

/-! ## One call -/

variable {d : Device Place} {disk : Disk} {place : Place}

theorem path_configure (d : Device Place) (call : Call) : (call.configure d).path = d.path := by
  cases call <;> rfl

theorem opened?_configure (d : Device Place) (call : Call) :
    (call.configure d).opened? = d.opened? := by
  cases call <;> rfl

/-- Settings neither open a device nor lead it to another file. -/
theorem configured (d : Device Place) (calls : List Call) :
    (calls.foldl Call.configure d).path = d.path
      ∧ (calls.foldl Call.configure d).opened? = d.opened? := by
  induction calls generalizing d with
  | nil => exact ⟨rfl, rfl⟩
  | cons call rest ih =>
      obtain ⟨path, opened⟩ := ih (call.configure d)
      exact ⟨path.trans (path_configure d call), opened.trans (opened?_configure d call)⟩

/-- Chunks are added one after the other. -/
theorem run_writeChunks (place : Place) (delay : Nat) (cs : List Bytes) (disk : Disk) :
    (writeChunks place delay cs : StateM Disk _).run disk
      = (.ok (), disk.append place cs.flatten) := by
  induction cs generalizing disk with
  | nil => rw [List.flatten_nil, Disk.append_nil]; rfl
  | cons chunk rest ih =>
      rw [writeChunks, List.flatten_cons, ← Disk.append_append, ← ih]
      split
      all_goals rfl

/-- On an open device a call adds what it sends. -/
theorem perform_of_open (h : d.opened? = some place) (call : Call) (disk : Disk) :
    (d.perform call : StateM Disk _).run disk
      = ((.ok (), call.configure d), disk.append place call.data) := by
  have file : (d.opened : StateM Disk _) = pure (.ok place, d) := by
    rw [opened, h]
  cases call with
  | connect =>
      rw [perform, connect, file]
      exact congrArg _ (Disk.append_nil disk place).symm
  | send data =>
      rw [perform, send, file, pure_bind]
      dsimp only
      rw [StateT.run_bind, run_writeChunks, flatten_chunks]
      rfl
  | setChunkSize size => exact congrArg _ (Disk.append_nil disk place).symm
  | setDelay milliseconds => exact congrArg _ (Disk.append_nil disk place).symm

/-- A call that sets something leaves the disk alone. -/
theorem perform_of_not_opens {call : Call} (h : call.opens = false) (d : Device Place)
    (disk : Disk) :
    (d.perform call : StateM Disk _).run disk = ((.ok (), call.configure d), disk) := by
  cases call with
  | connect => cases h
  | send data => cases h
  | setChunkSize size => rfl
  | setDelay milliseconds => rfl

/-- All that a call needs of a device that it opens is the open file. -/
theorem perform_congr {call : Call} (h : call.opens = true) {d₁ : Device Place} {disk₁ : Disk}
    (same : (d.opened : StateM Disk _).run disk = (d₁.opened : StateM Disk _).run disk₁) :
    (d.perform call : StateM Disk _).run disk = (d₁.perform call : StateM Disk _).run disk₁ := by
  cases call with
  | connect =>
      rw [perform, perform, connect, connect, StateT.run_bind, StateT.run_bind, same]
  | send data =>
      rw [perform, perform, send, send, StateT.run_bind, StateT.run_bind, same]
  | setChunkSize size => cases h
  | setDelay milliseconds => cases h

theorem run_opened (unopened : d.opened? = none) (disk : Disk) :
    (d.opened : StateM Disk _).run disk
      = match disk.writable d.path with
        | .ok place =>
          ((.ok place, { d with opened? := some place }),
            { disk with files := Disk.emptied place disk.files })
        | .error fault => ((.error (.deviceUnavailable d.path fault), d), disk) := by
  have created : (FileAccess.create d.path : StateM Disk _).run disk = disk.create d.path := rfl
  rw [opened, unopened]
  dsimp only
  rw [StateT.run_bind, created, Disk.create]
  cases disk.writable d.path with
  | ok place => rfl
  | error fault => rfl

/-- The first call that opens a device empties its file and then does what it does on
    an open one. -/
theorem perform_of_opens {call : Call} (h : call.opens = true) (unopened : d.opened? = none)
    (writable : disk.writable d.path = .ok place) :
    (d.perform call : StateM Disk _).run disk
      = (({ d with opened? := some place } : Device Place).perform call : StateM Disk _).run
          { disk with files := Disk.emptied place disk.files } := by
  refine perform_congr h ?_
  rw [run_opened unopened, writable]
  rfl

/-- A device that cannot be opened stays as it is. -/
theorem perform_of_refused {call : Call} (h : call.opens = true) (unopened : d.opened? = none)
    {fault : FileFault} (refused : disk.writable d.path = .error fault) :
    (d.perform call : StateM Disk _).run disk
      = ((.error (.deviceUnavailable d.path fault), call.configure d), disk) := by
  have file : (d.opened : StateM Disk _).run disk
      = ((.error (.deviceUnavailable d.path fault), d), disk) := by
    rw [run_opened unopened, refused]
  cases call with
  | connect =>
      rw [perform, connect, StateT.run_bind, file]
      rfl
  | send data =>
      rw [perform, send, StateT.run_bind, file]
      rfl
  | setChunkSize size => cases h
  | setDelay milliseconds => cases h

/-! ## Any calls -/

theorem after_cons {call : Call} {answer : Except Error Unit} {d₁ : Device Place} {disk₁ : Disk}
    (h : (d.perform call : StateM Disk _).run disk = ((answer, d₁), disk₁)) (rest : List Call) :
    d.after disk (call :: rest)
      = { d₁.after disk₁ rest with answers := answer :: (d₁.after disk₁ rest).answers } := by
  rw [after, performAll, StateT.run_bind, h]
  rfl

/-- **CALLS ON AN OPEN DEVICE ADD WHAT THEY SEND**, in their order, and do nothing
    else. -/
theorem after_of_open (h : d.opened? = some place) (calls : List Call) (disk : Disk) :
    d.after disk calls
      = ⟨calls.map fun _ => .ok (), calls.foldl Call.configure d,
          disk.append place (calls.flatMap Call.data)⟩ := by
  induction calls generalizing d disk with
  | nil =>
      rw [List.flatMap_nil, Disk.append_nil]
      rfl
  | cons call rest ih =>
      have open_ : (call.configure d).opened? = some place := (opened?_configure d call).trans h
      rw [after_cons (perform_of_open h call disk), ih open_, Disk.append_append,
        List.flatMap_cons]
      rfl

theorem data_of_not_opens {call : Call} (h : call.opens = false) : call.data = [] := by
  cases call with
  | connect => cases h
  | send data => cases h
  | setChunkSize size => rfl
  | setDelay milliseconds => rfl

/-- Calls on a device that can be opened succeed.  The first of them that opens it
    empties its file, to which all of them add what they send. -/
theorem after_of_writable (unopened : d.opened? = none)
    (writable : disk.writable d.path = .ok place) (calls : List Call) :
    (d.after disk calls).answers = calls.map (fun _ => .ok ())
      ∧ (d.after disk calls).disk
        = if calls.any Call.opens then
            { disk with files := Disk.emptied place disk.files }.append place
              (calls.flatMap Call.data)
          else disk := by
  induction calls generalizing d with
  | nil => exact ⟨rfl, rfl⟩
  | cons call rest ih =>
      rw [List.any_cons, List.flatMap_cons, List.map_cons]
      cases h : call.opens with
      | false =>
          obtain ⟨answers, disk'⟩ := ih ((opened?_configure d call).trans unopened)
            ((congrArg disk.writable (path_configure d call)).trans writable)
          rw [after_cons (perform_of_not_opens h d disk) rest, data_of_not_opens h,
            List.nil_append, Bool.false_or]
          exact ⟨congrArg _ answers, disk'⟩
      | true =>
          have open_ : ({ d with opened? := some place } : Device Place).opened? = some place := rfl
          rw [after_cons ((perform_of_opens h unopened writable).trans
            (perform_of_open open_ call _)) rest]
          rw [after_of_open ((opened?_configure _ call).trans open_), Disk.append_append,
            Bool.true_or, if_pos rfl]
          exact ⟨rfl, rfl⟩

theorem delivers (unopened : d.opened? = none) (writable : disk.writable d.path = .ok place)
    (calls : List Call) : d.Delivers disk place calls := by
  obtain ⟨answers, disk'⟩ := after_of_writable unopened writable calls
  have written := (disk.rewritten_emptied place).append (calls.flatMap Call.data)
  cases h : calls.any Call.opens with
  | false =>
      rw [h, if_neg Bool.false_ne_true] at disk'
      refine ⟨answers, ?_, fun _ => disk', fun other _ => ?_⟩
      · rw [h]
        nofun
      · rw [disk']
  | true =>
      rw [h, if_pos rfl] at disk'
      refine ⟨answers, fun _ => ?_, ?_, fun other ho => ?_⟩
      · rw [disk', written.read writable, Array.appendList_eq_append, Array.toList_appendList,
          List.nil_append]
      · rw [h]
        nofun
      · rw [disk']
        exact written.others other ho

/-- Calls on a device that cannot be opened leave all as it is but for what they
    set. -/
theorem after_of_refused (unopened : d.opened? = none) {fault : FileFault}
    (refused : disk.writable d.path = .error fault) (calls : List Call) :
    d.after disk calls
      = ⟨calls.map fun call =>
            if call.opens then .error (.deviceUnavailable d.path fault) else .ok (),
          calls.foldl Call.configure d, disk⟩ := by
  induction calls generalizing d with
  | nil => rfl
  | cons call rest ih =>
      have later := ih ((opened?_configure d call).trans unopened)
        ((congrArg disk.writable (path_configure d call)).trans refused)
      rw [path_configure] at later
      rw [List.map_cons, List.foldl_cons]
      cases h : call.opens with
      | false => rw [after_cons (perform_of_not_opens h d disk) rest, later, if_neg nofun]
      | true => rw [after_cons (perform_of_refused h unopened refused) rest, later, if_pos rfl]

theorem refuses (unopened : d.opened? = none) {fault : FileFault}
    (refused : disk.writable d.path = .error fault) (calls : List Call) :
    d.Refuses disk fault calls := by
  have hafter := after_of_refused unopened refused calls
  obtain ⟨path, opened⟩ := configured d calls
  refine ⟨congrArg Outcome.answers hafter, fun e he => ?_, ?_, ?_, congrArg Outcome.disk hafter⟩
  · rw [hafter] at he
    obtain ⟨call, -, heq⟩ := List.mem_map.mp he
    split at heq
    · obtain rfl := Except.error.inj heq
      rfl
    · cases heq
  · rw [hafter]
    exact opened.trans unopened
  · rw [hafter]
    exact path

/-- **A DEVICE NEITHER LOSES NOR REPEATS NOR REORDERS BYTES.**  After any calls on a
    device that was not open and can be opened, its file is what they sent; if it
    cannot be opened, it stays closed, and can be used like any other once its path
    can be written to. -/
theorem delivers_or_refuses (d : Device Place) (unopened : d.opened? = none) (disk : Disk)
    (calls : List Call) :
    (∀ place, disk.writable d.path = .ok place → d.Delivers disk place calls)
      ∧ ∀ fault, disk.writable d.path = .error fault →
          d.Refuses disk fault calls
            ∧ ∀ later place more, later.writable d.path = .ok place →
                (d.after disk calls).device.Delivers later place more := by
  refine ⟨fun place writable => delivers unopened writable calls, fun fault refused => ?_⟩
  have refuses := refuses unopened refused calls
  refine ⟨refuses, fun later place more writable => delivers refuses.unopened ?_ more⟩
  rw [refuses.path]
  exact writable

/-- A disk where the directory of a job is missing. -/
def withoutOutput : Disk := ⟨[], ["tmp"]⟩

/-- A disk with an old job in that directory. -/
def withOldJob : Disk := ⟨[(["tmp", "out", "job.bin"], #[7, 7, 7])], ["tmp"]⟩

/-- A job that is sent a second time when its directory is there. -/
theorem delivers_at_second_try :
    ({ path := "out/job.bin" } : Device Place).opened? = none
      ∧ withoutOutput.writable "out/job.bin" = .error .notFound
      ∧ withOldJob.writable "out/job.bin" = .ok ["tmp", "out", "job.bin"]
      ∧ let d : Device Place := { path := "out/job.bin" }
        let first := d.after withoutOutput [.setChunkSize 0, .send [1, 2, 3]]
        let second := first.device.after withOldJob [.send [1, 2, 3], .connect, .send [4]]
        first.answers = [.ok (), .error (.deviceUnavailable "out/job.bin" .notFound)]
          ∧ second.answers = [.ok (), .ok (), .ok ()]
          ∧ second.disk.read "out/job.bin" = .ok [1, 2, 3, 4] := by
  have refused : withoutOutput.writable "out/job.bin" = .error .notFound := by rfl
  have writable : withOldJob.writable "out/job.bin" = .ok ["tmp", "out", "job.bin"] := by rfl
  obtain ⟨first, retry⟩ := (delivers_or_refuses { path := "out/job.bin" } rfl withoutOutput
    [.setChunkSize 0, .send [1, 2, 3]]).2 .notFound refused
  have second := retry withOldJob _ [.send [1, 2, 3], .connect, .send [4]] writable
  have file := second.file rfl
  rw [first.path] at file
  exact ⟨rfl, refused, writable, first.answers, second.answers, file⟩

end ReceiptPrinter.Device
