import ReceiptPrinter.Proofs.Preview.Scanning
import ReceiptPrinter.Proofs.Text.Utf8
import ReceiptPrinter.Text.Encoding

/-! # Legible texts — characters that a printer reads as they were written

    A printer tells commands from text by three bytes, `ESC`, `GS` and `DLE`.
    A text without these characters is INERT: no encoding makes a command of
    it.  It is LEGIBLE if moreover its encoding is one whose bytes the printer
    can take for characters, or all of it is ASCII; then every character is one
    piece of the job (`Encoding.reads_encode`). -/

namespace ReceiptPrinter

/-- Whether a character begins a command when a printer is sent it. -/
def Text.isLead (c : Char) : Bool :=
  c == '\x1b' || c == '\x1d' || c == '\x10'

/-- A text without the characters that begin a command. -/
def Text.Inert (s : String) : Prop :=
  ∀ c ∈ s.toList, isLead c = false

-- The instance is named, since a search for one may try all characters there are.
instance (s : String) : Decidable (Text.Inert s) :=
  List.decidableBAll (fun c => Text.isLead c = false) s.toList

theorem Text.isLead_iff (c : Char) :
    isLead c = true ↔ c.toNat = 27 ∨ c.toNat = 29 ∨ c.toNat = 16 := by
  rw [isLead, Bool.or_eq_true, Bool.or_eq_true, beq_iff_eq, beq_iff_eq, beq_iff_eq,
    ← Char.toNat_inj, ← Char.toNat_inj, ← Char.toNat_inj, or_assoc]
  rfl

namespace Encoding

/-- A text whose characters a printer shows one by one: without those that
    begin a command, and outside ASCII only where the encoding is ASCII or
    UTF-8. -/
def Legible (e : Encoding) (s : String) : Prop :=
  Text.Inert s ∧ ∀ c ∈ s.toList, 128 ≤ c.toNat → e = .ascii ∨ e = .utf8

instance (e : Encoding) (s : String) : Decidable (e.Legible s) :=
  @instDecidableAnd _ _ _
    (List.decidableBAll (fun c => 128 ≤ c.toNat → e = .ascii ∨ e = .utf8) s.toList)

/-- The character that is shown for one of a text: ASCII has `?` for all others. -/
def shown (e : Encoding) (c : Char) : Char :=
  if e = .ascii ∧ 128 ≤ c.toNat then '?' else c

end Encoding

namespace Event

/-- What a character of a text means. -/
def ofChar (c : Char) : Event :=
  if c = '\n' then .lineEnd
  else if c = '\x0c' then .formFeed
  else if c = '\t' then .tab
  else if c.toNat < 32 ∨ c.toNat = 127 then .skip
  else .character c

theorem ofChar_of_high {c : Char} (h : 128 ≤ c.toNat) : ofChar c = .character c := by
  have h1 : c ≠ '\n' := fun e => absurd (e ▸ h) (by decide)
  have h2 : c ≠ '\x0c' := fun e => absurd (e ▸ h) (by decide)
  have h3 : c ≠ '\t' := fun e => absurd (e ▸ h) (by decide)
  rw [ofChar, if_neg h1, if_neg h2, if_neg h3, if_neg (by omega)]

/-- A byte of ASCII that begins no command is the character of its number. -/
theorem scan_ascii {c : Char} (h : c.toNat < 128) (lead : Text.isLead c = false) (rest : Bytes) :
    scan (UInt8.ofNat c.toNat) rest = .piece 1 (ofChar c) := by
  have hn : (UInt8.ofNat c.toNat).toNat = c.toNat :=
    UInt8.toNat_ofNat_of_lt' (show _ < 256 by omega)
  have hl : ¬ (c.toNat = 27 ∨ c.toNat = 29 ∨ c.toNat = 16) := fun e =>
    absurd ((Text.isLead_iff c).mpr e) (by rw [lead]; decide)
  have hh : Utf8.head (UInt8.ofNat c.toNat) rest = .scalar c 1 := by
    rw [Utf8.head_eq, hn, if_pos h, Char.ofNat_toNat]
  -- Both sides ask for the number of the byte, and the leads are ruled out.
  simp only [scan, scanText, ofChar, hh, ← UInt8.toNat_inj, ← Char.toNat_inj, hn,
    UInt8.lt_iff_toNat_lt, UInt8.reduceToNat, Char.reduceToNat]
  rw [if_neg (by omega), if_neg (by omega), if_neg (by omega)]
  simp only [apply_ite (Scan.piece 1)]

/-- A byte outside ASCII begins no command, so it is read as text. -/
theorem scan_high {b : UInt8} (h : 128 ≤ b.toNat) (rest : Bytes) :
    scan b rest = match Utf8.head b rest with
      | .scalar c size => .piece size (.character c)
      | .broken _ => .piece 1 (.character (Char.ofNat b.toNat)) := by
  cases hh : Utf8.head b rest with
  | scalar c size | broken size =>
      simp only [scan, scanText, hh, ← UInt8.toNat_inj, UInt8.lt_iff_toNat_lt,
        UInt8.reduceToNat]
      rw [if_neg (by omega), if_neg (by omega), if_neg (by omega), if_neg (by omega),
        if_neg (by omega), if_neg (by omega), if_neg (by omega)]

end Event

namespace Encoding

/-- A legible character is one piece of a job, the one that is shown for it. -/
theorem reads_encodeChar (e : Encoding) {c : Char} (lead : Text.isLead c = false)
    (high : 128 ≤ c.toNat → e = .ascii ∨ e = .utf8) :
    Event.Reads (e.encodeChar c) [Event.ofChar (e.shown c)] := by
  rcases Nat.lt_or_ge c.toNat 128 with h | h
  · have hc : e.encodeChar c = [UInt8.ofNat c.toNat] := by
      cases e <;> simp only [encodeChar, byte, if_pos h, Utf8.encodeChar_one h]
    have hs : e.shown c = c := if_neg fun k => absurd k.2 (Nat.not_le.mpr h)
    rw [hc, hs]
    exact .single fun after => Event.scan_ascii h lead after
  · rcases high h with rfl | rfl
    -- ASCII sends a question mark, and that is what it shows.
    · have hc : ascii.encodeChar c = [0x3F] := by
        simp only [encodeChar, byte, if_neg (Nat.not_lt.mpr h), highByte?, Option.getD_none]
      have hs : ascii.shown c = '?' := if_pos ⟨rfl, h⟩
      rw [hc, hs]
      exact .single fun after => rfl
    · have hs : utf8.shown c = c := if_neg fun k => Encoding.noConfusion k.1
      obtain ⟨b, tail, hb, hr⟩ := Utf8.head_encodeChar c
      have hm : 128 ≤ b.toNat := Utf8.encodeChar_high h b (by rw [hb]; exact List.mem_cons_self)
      rw [hs, Event.ofChar_of_high h, encodeChar, hb]
      refine .single ?_
      intro after
      rw [Event.scan_high hm, hr]

/-- **A LEGIBLE TEXT IS READ CHARACTER BY CHARACTER**. -/
theorem reads_encode {e : Encoding} {s : String} (h : e.Legible s) :
    Event.Reads (e.encode s) (s.toList.map fun c => Event.ofChar (e.shown c)) := by
  rw [List.map_eq_flatMap]
  exact .flatMap fun c hc => e.reads_encodeChar (h.1 c hc) (h.2 c hc)

end Encoding

end ReceiptPrinter
