import ReceiptPrinter.Image.Bmp
import ReceiptPrinter.Proofs.Command.Meaning
import ReceiptPrinter.Proofs.Outcomes

/-! # Synchronization — a job is read as the parts it was made of

    A print job is put together from commands, whole QR symbols and images out
    of files.  Whatever their parameters and payloads, the reader has a boundary
    at the end of every part: a printer that is sent the job at once ends as one
    that is sent it part by part (`feed_flatten_parts`).

    Each part is a sequence of commands that can be sent, so it is read on its
    own; the judgement `Event.Reads` does the rest. -/

namespace ReceiptPrinter

/-- What a print job is put together from. -/
inductive Part where
  | command (c : Command)
  /-- A QR symbol from its setup to its printing. -/
  | symbol (data : Bytes) (size level : UInt8)
  /-- The image in a BMP file, stored and printed. -/
  | bitmap (file : Array UInt8) (function : UInt8)

namespace Part

/-- The bytes of a part, or the reason why it cannot be sent. -/
def encode : Part → Except Error Bytes
  | .command c => c.encode
  | .symbol data size level => Command.encodeAll (Command.wholeSymbol data size level)
  | .bitmap file function => Bmp.print file function

/-- A part whose text, if it has one, is legible. -/
def Legible : Part → Prop
  | .command c => c.Legible
  | _ => True

instance : DecidablePred Legible
  | .command c => inferInstanceAs (Decidable c.Legible)
  | .symbol .. | .bitmap .. => isTrue trivial

end Part

/-! ## Commands that can be sent -/

namespace Command

theorem encode_eq_ok {c : Command} {bytes : Bytes} (h : c.encode = .ok bytes) :
    c.fault? = none ∧ bytes = c.bytes := by
  rw [encode] at h
  split at h
  · cases h
  next hc => exact ⟨hc, (Except.ok.inj h).symm⟩

/-- Commands whose bytes are known can all be sent. -/
theorem sent_of_encodeAll {cs : List Command} {bytes : Bytes} (h : encodeAll cs = .ok bytes) :
    (∀ c ∈ cs, c.fault? = none) ∧ bytes = cs.flatMap Command.bytes := by
  induction cs generalizing bytes with
  | nil =>
      refine ⟨?_, (Except.ok.inj h).symm⟩
      intro c hc
      cases hc
  | cons c rest ih =>
      rw [encodeAll] at h
      split at h
      · cases h
      · cases h
      next a b ha hb =>
        obtain ⟨hc, hbytes⟩ := encode_eq_ok ha
        obtain ⟨hrest, hothers⟩ := ih hb
        refine ⟨List.forall_mem_cons.mpr ⟨hc, hrest⟩, ?_⟩
        rw [List.flatMap_cons, ← hbytes, ← hothers]
        exact (Except.ok.inj h).symm

/-- Commands that can be sent are read as their events, one command after the other. -/
theorem reads_flatMap {cs : List Command} (sent : ∀ c ∈ cs, c.fault? = none)
    (legible : ∀ c ∈ cs, c.Legible) :
    Event.Reads (cs.flatMap Command.bytes) (cs.flatMap Command.events) :=
  .flatMap fun c hc => c.reads_bytes (sent c hc) (legible c hc)

end Command

/-- An image whose bytes are known is sent as the commands that store and print it. -/
theorem Bmp.encodeAll_of_print {file : Array UInt8} {function : UInt8} {bytes : Bytes}
    (h : Bmp.print file function = .ok bytes) :
    ∃ image, Bmp.transcode file = .ok image
      ∧ Command.encodeAll (Bmp.printCommands image function) = .ok bytes := by
  rw [Bmp.print] at h
  split at h
  · cases h
  split at h
  · cases h
  next image himage => exact ⟨image, himage, h⟩

theorem Bmp.legible_printCommands (image : Bitmap) (function : UInt8) :
    ∀ c ∈ Bmp.printCommands image function, c.Legible := by
  intro c hc
  simp only [Bmp.printCommands, List.mem_cons, List.not_mem_nil, or_false] at hc
  rcases hc with rfl | rfl <;> exact trivial

/-! ## Parts -/

namespace Part

/-- The bytes of a part are read on their own. -/
theorem reads {part : Part} {bytes : Bytes} (made : part.encode = .ok bytes)
    (legible : part.Legible) : ∃ events, Event.Reads bytes events := by
  cases part with
  | command c =>
      obtain ⟨sent, rfl⟩ := Command.encode_eq_ok made
      exact ⟨_, c.reads_bytes sent legible⟩
  | symbol data size level =>
      obtain ⟨sent, rfl⟩ := Command.sent_of_encodeAll made
      refine ⟨_, Command.reads_flatMap sent ?_⟩
      intro c hc
      obtain ⟨s, -, rfl⟩ := List.mem_map.mp hc
      exact trivial
  | bitmap file function =>
      obtain ⟨image, -, hcs⟩ := Bmp.encodeAll_of_print made
      obtain ⟨sent, rfl⟩ := Command.sent_of_encodeAll hcs
      exact ⟨_, Command.reads_flatMap sent (Bmp.legible_printCommands image function)⟩

end Part

/-- The bytes of a job whose every piece is read on its own. -/
def Separate (pieces : List Bytes) : Prop :=
  ∀ piece ∈ pieces, ∃ events, Event.Reads piece events

theorem separate_of_parts {parts : List Part} {pieces : List Bytes}
    (made : parts.mapM Part.encode = .ok pieces) (legible : ∀ part ∈ parts, part.Legible) :
    Separate pieces := by
  induction parts generalizing pieces with
  | nil =>
      intro piece hp
      rw [← Except.ok.inj made] at hp
      cases hp
  | cons part rest ih =>
      obtain ⟨z, zs, hz, hzs, rfl⟩ := mapM_cons_eq_ok made
      rw [List.forall_mem_cons] at legible
      exact List.forall_mem_cons.mpr ⟨part.reads hz legible.1, ih hzs legible.2⟩

namespace Separate

variable {pieces : List Bytes}

/-- The steps over the whole are the steps over each piece. -/
theorem steps_flatten (h : Separate pieces) :
    Event.steps pieces.flatten = pieces.flatMap Event.steps := by
  induction pieces with
  | nil => exact Event.steps_nil
  | cons piece rest ih =>
      rw [Separate, List.forall_mem_cons] at h
      obtain ⟨⟨events, hp⟩, hrest⟩ := h
      rw [List.flatten_cons, hp.steps_append, ih hrest, List.flatMap_cons]

theorem whole (h : Separate pieces) : ∀ r ∈ Event.steps pieces.flatten, r.Whole := by
  intro r hr
  rw [h.steps_flatten] at hr
  obtain ⟨piece, hp, hrp⟩ := List.mem_flatMap.mp hr
  obtain ⟨events, he⟩ := h piece hp
  exact he.whole r hrp

theorem feed_flatten (h : Separate pieces) (p : TextPrinter) :
    (p.feed pieces.flatten).1 = pieces.foldl (fun p piece => (p.feed piece).1) p := by
  rw [TextPrinter.feed_eq, h.steps_flatten]
  exact (p.feedAll_eq pieces).symm

end Separate

/-- The reader has a boundary between two parts of a job: some of its steps take
    just the first part. -/
def Event.Boundary (before after : Bytes) : Prop :=
  ∃ done others, steps (before ++ after) = done ++ others
    ∧ done.flatMap ScanStep.taken = before

/-- **THE READER NEVER LOSES STEP WITH A JOB** that is made of parts which can be
    sent and whose texts are legible.  A printer in any state ends the same
    whether it is fed the whole or part by part; there is a boundary at the end
    of every part; and every step reads a complete piece. -/
theorem feed_flatten_parts {parts : List Part} {pieces : List Bytes}
    (made : parts.mapM Part.encode = .ok pieces) (legible : ∀ part ∈ parts, part.Legible)
    (p : TextPrinter) :
    (p.feed pieces.flatten).1 = pieces.foldl (fun p piece => (p.feed piece).1) p
      ∧ (∀ k, Event.Boundary (pieces.take k).flatten (pieces.drop k).flatten)
      ∧ Event.steps pieces.flatten = pieces.flatMap Event.steps
      ∧ ∀ r ∈ Event.steps pieces.flatten, r.Whole := by
  have h : Separate pieces := separate_of_parts made legible
  refine ⟨h.feed_flatten p, ?_, h.steps_flatten, h.whole⟩
  intro k
  have hsplit : (pieces.take k).flatten ++ (pieces.drop k).flatten = pieces.flatten := by
    rw [← List.flatten_append, List.take_append_drop]
  -- The first pieces are separate by themselves, so their steps come first.
  have hk : Separate (pieces.take k) := fun piece hp => h piece (List.mem_of_mem_take hp)
  refine ⟨Event.steps (pieces.take k).flatten, (pieces.drop k).flatMap Event.steps, ?_,
    Event.flatMap_taken_steps _⟩
  rw [hsplit, h.steps_flatten, hk.steps_flatten, ← List.flatMap_append, List.take_append_drop]

/-- A text of two bytes and three bytes a character, then payloads of bytes that
    begin commands. -/
theorem steps_of_hostile_payloads :
    [Part.command (.text .utf8 "é☕"), .command (.barcode (.print 73 [0x1B, 0x1D])),
        .command (.control (.drawerPulse 0x1D 0x1B 0x10))].mapM Part.encode
      = .ok [[0xC3, 0xA9, 0xE2, 0x98, 0x95], [0x1D, 0x6B, 73, 2, 0x1B, 0x1D],
          [0x1B, 0x70, 0x1D, 0x1B, 0x10]]
      ∧ ∀ r ∈ Event.steps [0xC3, 0xA9, 0xE2, 0x98, 0x95, 0x1D, 0x6B, 73, 2, 0x1B, 0x1D, 0x1B,
          0x70, 0x1D, 0x1B, 0x10], r.Whole := by
  have made : [Part.command (.text .utf8 "é☕"), .command (.barcode (.print 73 [0x1B, 0x1D])),
      .command (.control (.drawerPulse 0x1D 0x1B 0x10))].mapM Part.encode
        = .ok [[0xC3, 0xA9, 0xE2, 0x98, 0x95], [0x1D, 0x6B, 73, 2, 0x1B, 0x1D],
            [0x1B, 0x70, 0x1D, 0x1B, 0x10]] := rfl
  exact ⟨made, (feed_flatten_parts made (by decide) .standard).2.2.2⟩

end ReceiptPrinter
