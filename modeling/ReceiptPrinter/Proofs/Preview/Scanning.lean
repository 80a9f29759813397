import ReceiptPrinter.Preview.TextPrinter

/-! # Scanning — a print job as the steps of its reader

    A text printer walks over a job piece by piece.  `Event.steps` writes that
    walk down: every step with the bytes it takes and what it reads in them, so
    that what a printer does to a job is a fold over its steps.

    The theory turns on one judgement.  `Event.Reads bytes events` says that
    `bytes` is a sequence of pieces, each of which announces just the bytes it
    has WHATEVER STANDS BEHIND IT.  Such bytes are read on their own in front of
    any others: the walk has a boundary at their end. -/

namespace ReceiptPrinter

/-- One step of the reader: the bytes that it takes, and what it reads in them. -/
structure ScanStep where
  taken : Bytes
  scan : Scan
deriving DecidableEq, Repr

/-- A step that reads a complete piece: the bytes do not break it off, and it
    takes just as many as it announces. -/
def ScanStep.Whole (r : ScanStep) : Prop :=
  ∃ event, r.scan = .piece r.taken.length event

namespace Event

/-- The steps that the reader takes over some bytes. -/
def steps : Bytes → List ScanStep
  | [] => []
  | b :: rest =>
    let s := scan b rest
    let size := TextPrinter.taken s rest
    ⟨b :: rest.take size, s⟩ :: steps (rest.drop size)
termination_by bytes => bytes.length
decreasing_by simp only [List.length_cons, List.length_drop]; omega

@[simp] theorem steps_nil : steps [] = [] := by
  rw [steps]

theorem steps_cons (b : UInt8) (rest : Bytes) :
    steps (b :: rest)
      = ⟨b :: rest.take (TextPrinter.taken (scan b rest) rest), scan b rest⟩
          :: steps (rest.drop (TextPrinter.taken (scan b rest) rest)) := by
  rw [steps]

/-- The steps take all the bytes, in their order. -/
theorem flatMap_taken_steps (bytes : Bytes) :
    (steps bytes).flatMap ScanStep.taken = bytes := by
  induction bytes using steps.induct with
  | case1 => rw [steps_nil]; rfl
  | case2 b rest s size ih =>
      rw [steps_cons, List.flatMap_cons, ih]
      show b :: (rest.take size ++ rest.drop size) = b :: rest
      rw [List.take_append_drop]

/-- Each step reads what stands at the start of some bytes. -/
theorem exists_scan_of_mem_steps {bytes : Bytes} {r : ScanStep} (h : r ∈ steps bytes) :
    ∃ b rest, r.scan = scan b rest := by
  induction bytes using steps.induct with
  | case1 =>
      rw [steps_nil] at h
      cases h
  | case2 b rest s size ih =>
      rw [steps_cons] at h
      rcases List.mem_cons.mp h with rfl | hmem
      · exact ⟨b, rest, rfl⟩
      · exact ih hmem

end Event

/-! ## Printers and steps -/

namespace TextPrinter

/-- The printer after some events. -/
def applyAll (p : TextPrinter) (events : List Event) : TextPrinter :=
  events.foldl apply p

@[simp] theorem applyAll_append (p : TextPrinter) (xs ys : List Event) :
    p.applyAll (xs ++ ys) = (p.applyAll xs).applyAll ys :=
  List.foldl_append

/-- The printer after some steps of the reader. -/
def afterAll (p : TextPrinter) (rs : List ScanStep) : TextPrinter :=
  rs.foldl (fun p r => p.after r.scan) p

theorem afterAll_append (p : TextPrinter) (xs ys : List ScanStep) :
    p.afterAll (xs ++ ys) = (p.afterAll xs).afterAll ys :=
  List.foldl_append

theorem taken_le (s : Scan) (rest : Bytes) : taken s rest ≤ rest.length := by
  cases s with
  | piece size event => exact List.length_take_le' (size - 1) rest
  | truncated => exact Nat.le_refl _

private theorem feedFrom_eq (before : Nat) (p : TextPrinter) (bytes : Bytes) :
    feedFrom before p bytes = (p.afterAll (Event.steps bytes), before + bytes.length) := by
  induction bytes using Event.steps.induct generalizing before p with
  | case1 => rw [feedFrom, Event.steps_nil]; rfl
  | case2 b rest s size ih =>
      rw [feedFrom, ih, Event.steps_cons]
      refine Prod.ext rfl ?_
      have h : size ≤ rest.length := taken_le s rest
      show before + (size + 1) + (rest.drop size).length = before + (rest.length + 1)
      rw [List.length_drop]
      omega

/-- **A FEED IS A FOLD OVER STEPS**, and it takes all the bytes. -/
theorem feed_eq (p : TextPrinter) (bytes : Bytes) :
    p.feed bytes = (p.afterAll (Event.steps bytes), bytes.length) := by
  rw [feed, feedFrom_eq, Nat.zero_add]

/-- The printer after feeds, one after the other. -/
def feedAll (p : TextPrinter) (feeds : List Bytes) : TextPrinter :=
  feeds.foldl (fun p bytes => (p.feed bytes).1) p

/-- Feeds are the steps over each of them. -/
theorem feedAll_eq (p : TextPrinter) (feeds : List Bytes) :
    p.feedAll feeds = p.afterAll (feeds.flatMap Event.steps) := by
  induction feeds generalizing p with
  | nil => rfl
  | cons bytes rest ih =>
      rw [List.flatMap_cons, afterAll_append, ← ih]
      show (p.feed bytes).1.feedAll rest = _
      rw [feed_eq]

end TextPrinter

/-! ## Bytes that are read on their own -/

namespace Event

/-- The bytes are pieces of just the size that each announces, in front of any
    bytes, and mean these events. -/
inductive Reads : Bytes → List Event → Prop where
  | nil : Reads [] []
  | piece {b : UInt8} {rest bytes : Bytes} {event : Event} {events : List Event}
      (first : ∀ after, scan b (rest ++ after) = .piece (rest.length + 1) event)
      (others : Reads bytes events) : Reads (b :: (rest ++ bytes)) (event :: events)

namespace Reads

/-- One piece. -/
theorem single {b : UInt8} {rest : Bytes} {event : Event}
    (first : ∀ after, scan b (rest ++ after) = .piece (rest.length + 1) event) :
    Reads (b :: rest) [event] := by
  have h := Reads.piece first .nil
  rwa [List.append_nil] at h

theorem append {xs ys : Bytes} {as bs : List Event} (h : Reads xs as) (k : Reads ys bs) :
    Reads (xs ++ ys) (as ++ bs) := by
  induction h with
  | nil => exact k
  | piece first others ih =>
      rw [List.cons_append, List.append_assoc]
      exact .piece first ih

/-- Bytes made of one part per item are read part by part. -/
theorem flatMap {α : Type} {f : α → Bytes} {g : α → List Event} {items : List α}
    (h : ∀ x ∈ items, Reads (f x) (g x)) : Reads (items.flatMap f) (items.flatMap g) := by
  induction items with
  | nil => exact .nil
  | cons x rest ih =>
      rw [List.flatMap_cons, List.flatMap_cons]
      exact (h x List.mem_cons_self).append (ih fun y hy => h y (List.mem_cons_of_mem x hy))

end Reads

/-- A piece that announces just its own bytes is one step in front of any others. -/
theorem steps_piece {b : UInt8} {rest : Bytes} {event : Event}
    (first : ∀ after, scan b (rest ++ after) = .piece (rest.length + 1) event) (after : Bytes) :
    steps (b :: (rest ++ after)) = ⟨b :: rest, .piece (rest.length + 1) event⟩ :: steps after := by
  -- The size of a piece counts its first byte; what is taken does not.
  have h : TextPrinter.taken (.piece (rest.length + 1) event) (rest ++ after) = rest.length := by
    show ((rest ++ after).take (rest.length + 1 - 1)).length = rest.length
    rw [Nat.add_sub_cancel, List.take_left]
  rw [steps_cons, first, h, List.take_left, List.drop_left]

namespace Reads

variable {bytes : Bytes} {events : List Event}

/-- The walk over such bytes has a boundary at their end. -/
theorem steps_append (h : Reads bytes events) (after : Bytes) :
    steps (bytes ++ after) = steps bytes ++ steps after := by
  induction h with
  | nil => rw [steps_nil]; rfl
  | piece first others ih =>
      rw [List.cons_append, List.append_assoc, steps_piece first, steps_piece first, ih,
        List.cons_append]

/-- Each step over such bytes reads a complete piece. -/
theorem whole (h : Reads bytes events) : ∀ r ∈ steps bytes, r.Whole := by
  induction h with
  | nil =>
      intro r hr
      rw [steps_nil] at hr
      cases hr
  | piece first others ih =>
      intro r hr
      rw [steps_piece first] at hr
      rcases List.mem_cons.mp hr with heq | hmem
      · rw [heq]
        exact ⟨_, rfl⟩
      · exact ih r hmem

/-- To a printer such bytes are their events. -/
theorem afterAll_steps (h : Reads bytes events) (p : TextPrinter) :
    p.afterAll (steps bytes) = p.applyAll events := by
  induction h generalizing p with
  | nil => rw [steps_nil]; rfl
  | piece first others ih =>
      rw [steps_piece first]
      exact ih _

theorem feed_eq (h : Reads bytes events) (p : TextPrinter) :
    p.feed bytes = (p.applyAll events, bytes.length) := by
  rw [TextPrinter.feed_eq, h.afterAll_steps]

end Reads

end Event

end ReceiptPrinter
