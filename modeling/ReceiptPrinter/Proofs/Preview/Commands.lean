import ReceiptPrinter.Proofs.Preview.Legible
import ReceiptPrinter.Proofs.Text.CodePages

/-! # Commands in a job — what text leaves alone

    A reader takes a piece of a job for a command by its first byte alone.  The
    commands of a job are the steps that begin with `ESC`, `GS` or `DLE`, each
    with all the bytes that the reader takes for its parameters.

    Bytes that begin no command never hide one: whatever a text's bytes are
    read as, none of them takes a byte of ASCII along, so the commands behind
    them are found as if they were not there (`commands_of_plain`). -/

namespace ReceiptPrinter

/-- Whether a byte begins a command. -/
def Event.isLead (b : UInt8) : Bool :=
  b == 0x1B || b == 0x1D || b == 0x10

/-- Whether a step reads a command. -/
def ScanStep.isCommand (r : ScanStep) : Bool :=
  r.taken.head?.any Event.isLead

namespace Event

/-- The commands that the reader finds in some bytes, with their parameters. -/
def commands (bytes : Bytes) : List ScanStep :=
  (steps bytes).filter ScanStep.isCommand

@[simp] theorem commands_nil : commands [] = [] := by
  rw [commands, steps_nil, List.filter_nil]

theorem isLead_of_high {b : UInt8} (h : 128 ≤ b.toNat) : isLead b = false := by
  rw [isLead, Bool.or_eq_false_iff, Bool.or_eq_false_iff, beq_eq_false_iff_ne,
    beq_eq_false_iff_ne, beq_eq_false_iff_ne]
  refine ⟨⟨?_, ?_⟩, ?_⟩ <;>
    · rintro rfl
      exact absurd h (by decide)

theorem scan_of_plain {b : UInt8} (plain : isLead b = false) (rest : Bytes) :
    scan b rest = scanText b rest := by
  rw [isLead, Bool.or_eq_false_iff, Bool.or_eq_false_iff, beq_eq_false_iff_ne,
    beq_eq_false_iff_ne, beq_eq_false_iff_ne] at plain
  obtain ⟨⟨hesc, hgs⟩, hdle⟩ := plain
  rw [scan, if_neg hesc, if_neg hgs, if_neg hdle]

/-- A byte of text is a piece of its own, or the first one of a sequence. -/
theorem scanText_cases (b : UInt8) (rest : Bytes) :
    (∃ event, scanText b rest = .piece 1 event)
      ∨ ∃ c size, Utf8.head b rest = .scalar c size
        ∧ scanText b rest = .piece size (.character c) := by
  rw [scanText]
  split
  · exact .inl ⟨_, rfl⟩
  split
  · exact .inl ⟨_, rfl⟩
  split
  · exact .inl ⟨_, rfl⟩
  split
  · exact .inl ⟨_, rfl⟩
  split
  next c size hh => exact .inr ⟨c, size, hh, rfl⟩
  · exact .inl ⟨_, rfl⟩

/-- A byte that begins no command takes no byte along that does. -/
theorem plain_of_scan {b : UInt8} (plain : isLead b = false) (rest : Bytes) :
    ∀ x ∈ rest.take (TextPrinter.taken (scan b rest) rest), isLead x = false := by
  rw [scan_of_plain plain]
  rcases scanText_cases b rest with ⟨event, hs⟩ | ⟨c, size, hh, hs⟩
  · rw [hs]
    exact List.forall_mem_nil _
  · rw [hs]
    show ∀ x ∈ rest.take (rest.take (size - 1)).length, isLead x = false
    rw [List.length_take, List.take_eq_take_min.symm]
    exact fun x hx => isLead_of_high (Utf8.high_of_head hh x hx)

/-- A step that begins with such a byte is no command. -/
theorem commands_cons_of_plain {b : UInt8} (plain : isLead b = false) (rest : Bytes) :
    commands (b :: rest)
      = commands (rest.drop (TextPrinter.taken (scan b rest) rest)) := by
  rw [commands, steps_cons, List.filter_cons_of_neg]
  · rfl
  · show ¬ isLead b = true
    rw [plain]
    exact Bool.false_ne_true

/-- **TEXT HIDES NO COMMAND**: bytes that begin none can be taken away in front
    of any others. -/
theorem commands_of_plain {front : Bytes} (plain : ∀ b ∈ front, isLead b = false)
    (rest : Bytes) : commands (front ++ rest) = commands rest := by
  -- A sequence may take bytes of `rest`, so the induction is on all the bytes.
  have h : ∀ (n : Nat) (front rest : Bytes), (front ++ rest).length ≤ n →
      (∀ b ∈ front, isLead b = false) → commands (front ++ rest) = commands rest := by
    intro n
    induction n with
    | zero =>
        intro front rest hn _
        have hnil := List.eq_nil_of_length_eq_zero (Nat.le_zero.mp hn)
        obtain ⟨rfl, rfl⟩ := List.append_eq_nil_iff.mp hnil
        rfl
    | succ n ih =>
        intro front rest hn plain
        cases front with
        | nil => rfl
        | cons b front =>
            rw [List.forall_mem_cons] at plain
            have hlen : (front ++ rest).length ≤ n := Nat.le_of_succ_le_succ hn
            have htaken := plain_of_scan plain.1 (front ++ rest)
            rw [List.cons_append, commands_cons_of_plain plain.1]
            have hdrop := ih _ _ (by rw [List.take_append_drop]; exact hlen) htaken
            rw [List.take_append_drop] at hdrop
            rw [← hdrop]
            exact ih front rest hlen plain.2
  exact h _ front rest (Nat.le_refl _) plain

/-- The commands of bytes that are read on their own come before those of others. -/
theorem Reads.commands_append {bytes : Bytes} {events : List Event} (h : Reads bytes events)
    (after : Bytes) : commands (bytes ++ after) = commands bytes ++ commands after := by
  rw [commands, h.steps_append, List.filter_append]
  rfl

end Event

/-! ## Texts -/

namespace Encoding

theorem plain_of_ascii {c : Char} (h : c.toNat < 128) (inert : Text.isLead c = false) :
    Event.isLead (UInt8.ofNat c.toNat) = false := by
  have hn : (UInt8.ofNat c.toNat).toNat = c.toNat :=
    UInt8.toNat_ofNat_of_lt' (show _ < 256 by omega)
  have hl : ¬ (c.toNat = 27 ∨ c.toNat = 29 ∨ c.toNat = 16) := fun e =>
    absurd ((Text.isLead_iff c).mpr e) (by rw [inert]; decide)
  rw [Event.isLead, Bool.or_eq_false_iff, Bool.or_eq_false_iff, beq_eq_false_iff_ne,
    beq_eq_false_iff_ne, beq_eq_false_iff_ne, ne_eq, ne_eq, ne_eq, ← UInt8.toNat_inj,
    ← UInt8.toNat_inj, ← UInt8.toNat_inj, hn]
  simp only [UInt8.reduceToNat]
  omega

theorem plain_of_encodeChar (e : Encoding) {c : Char} (inert : Text.isLead c = false) :
    ∀ b ∈ e.encodeChar c, Event.isLead b = false := by
  rcases Nat.lt_or_ge c.toNat 128 with h | h
  · have hc : e.encodeChar c = [UInt8.ofNat c.toNat] := by
      cases e <;> simp only [encodeChar, byte, if_pos h, Utf8.encodeChar_one h]
    rw [hc]
    exact List.forall_mem_singleton.mpr (plain_of_ascii h inert)
  · have hbyte : Event.isLead (e.byte c) = false := by
      rcases (e.writes_byte c).high h with hb | hb
      · rw [hb]
        rfl
      · exact Event.isLead_of_high hb
    cases e with
    | utf8 => exact fun b hb => Event.isLead_of_high (Utf8.encodeChar_high h b hb)
    | _ => exact List.forall_mem_singleton.mpr hbyte

/-- **AN INERT TEXT HAS NO COMMAND IN IT**, in whatever encoding it is sent. -/
theorem plain_of_inert (e : Encoding) {s : String} (h : Text.Inert s) :
    ∀ b ∈ e.encode s, Event.isLead b = false := by
  intro b hb
  obtain ⟨c, hc, hbc⟩ := List.mem_flatMap.mp hb
  exact plain_of_encodeChar e (h c hc) b hbc

end Encoding

end ReceiptPrinter
