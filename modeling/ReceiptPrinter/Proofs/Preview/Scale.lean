import ReceiptPrinter.Proofs.Preview.Readings
import ReceiptPrinter.Proofs.Preview.Styles

/-! # Scale — how large the characters of a job are

    The scale of what follows is set by a byte, four bits for each direction.  The
    commands that this library sends hold scales from 1 to 8.  A printer that is
    fed other bytes takes all four bits, so its scale goes up to 16.

    `sizeByte` finds in the steps of the reader the byte that is in force: that of
    the last `GS !`, unless a reset came after it.  The scale of a printer is what
    this byte says (`scale_of_feeds`), and it lies within 1 to 8 just if neither
    half of the byte exceeds seven. -/

namespace ReceiptPrinter

/-! ## The byte in force -/

/-- The size byte in force after a step of the reader, given the one before it. -/
def ScanStep.sizeByte (n : UInt8) (r : ScanStep) : UInt8 :=
  match r.taken with
  | [lead, code] => if lead = 0x1B ∧ code = 0x40 then 0 else n
  | [lead, code, m] => if lead = 0x1D ∧ code = 0x21 then m else n
  | _ => n

/-- The size byte in force after some steps. -/
def Event.sizeByte (steps : List ScanStep) : UInt8 :=
  steps.foldl ScanStep.sizeByte 0

/-- Only `ESC @` and `GS !` change the byte. -/
theorem ScanStep.sizeByte_of_other {n b : UInt8} {rest : Bytes} {size : Nat} {s : Scan}
    (reset : ¬ (b = 0x1B ∧ rest.head? = some 0x40))
    (scale : ¬ (b = 0x1D ∧ rest.head? = some 0x21)) :
    sizeByte n ⟨b :: rest.take size, s⟩ = n := by
  have first : ∀ c cs, rest.take size = c :: cs → rest.head? = some c := by
    intro c cs h
    cases rest with
    | nil => simp at h
    | cons d rest =>
        cases size with
        | zero => simp at h
        | succ size => exact congrArg some (List.cons.inj h).1
  simp only [sizeByte]
  split
  next code h =>
    have hhead := first code [] (List.cons.inj h).2
    rw [if_neg]
    rintro ⟨rfl, rfl⟩
    exact reset ⟨(List.cons.inj h).1, hhead⟩
  next code m h =>
    have hhead := first code [m] (List.cons.inj h).2
    rw [if_neg]
    rintro ⟨rfl, rfl⟩
    exact scale ⟨(List.cons.inj h).1, hhead⟩
  · rfl

/-! ## The scale of a style -/

/-- A style whose scale is that of a size byte: the low half gives the width, the
    high half the height, and both count from zero. -/
def TextStyle.Sized (style : TextStyle) (n : UInt8) : Prop :=
  style.width = n.toNat % 16 + 1 ∧ style.height = n.toNat / 16 + 1

/-- A style whose scale a printer's documentation allows. -/
def TextStyle.InRange (style : TextStyle) : Prop :=
  (1 ≤ style.width ∧ style.width ≤ 8) ∧ (1 ≤ style.height ∧ style.height ≤ 8)

/-- What is read leaves the scale of every style as it is. -/
def Scan.KeepsSize (s : Scan) : Prop :=
  ∀ size event, s = .piece size event → ∀ (style : TextStyle) (n : UInt8),
    style.Sized n → (style.after event).Sized n

namespace Event

/-- Events that do not concern the letters leave their size as it is. -/
theorem sized_after_others {event : Event} (others : event.concernsLetters = false)
    (style : TextStyle) (n : UInt8) (h : style.Sized n) : (style.after event).Sized n := by
  cases event with
  | character | scale | reset => cases others
  | _ => exact h

/-! ## The scale of a printer -/

/-- **ONE STEP OF THE READER** keeps the scale and the byte in force together. -/
theorem sized_after_step {style : TextStyle} {n b : UInt8} {rest : Bytes} (h : style.Sized n)
    {r : ScanStep}
    (hr : r = ⟨b :: rest.take (TextPrinter.taken (scan b rest) rest), scan b rest⟩)
    {p : TextPrinter} (hp : p.style = style) : (p.after r.scan).style.Sized (r.sizeByte n) := by
  subst hr hp
  by_cases reset : b = 0x1B ∧ rest.head? = some 0x40
  · obtain ⟨rfl, hhead⟩ := reset
    obtain ⟨rest, rfl⟩ : ∃ tail, rest = 0x40 :: tail := List.head?_eq_some_iff.mp hhead
    show TextStyle.Sized {} 0
    exact ⟨rfl, rfl⟩
  by_cases scale : b = 0x1D ∧ rest.head? = some 0x21
  · obtain ⟨rfl, hhead⟩ := scale
    obtain ⟨rest, rfl⟩ : ∃ tail, rest = 0x21 :: tail := List.head?_eq_some_iff.mp hhead
    cases rest with
    | nil => exact h
    | cons m rest =>
        show TextStyle.Sized { p.style with width := _, height := _ } m
        exact ⟨rfl, rfl⟩
  rw [ScanStep.sizeByte_of_other reset scale]
  have keeps : (scan b rest).KeepsSize :=
    says_scan (fun _ => sized_after_others) b rest (fun hb hhead => absurd ⟨hb, hhead⟩ reset)
      (fun hb hhead => absurd ⟨hb, hhead⟩ scale) fun _ _ _ _ h => h
  show (p.after (scan b rest)).style.Sized n
  cases hs : scan b rest with
  | truncated => exact h
  | piece size event =>
      show (p.apply event).style.Sized n
      rw [p.style_apply]
      exact keeps size event hs p.style n h

/-- A run over some bytes keeps them together too. -/
theorem sized_afterAll (bytes : Bytes) : ∀ {p : TextPrinter} {n : UInt8}, p.style.Sized n →
    (p.afterAll (steps bytes)).style.Sized ((steps bytes).foldl ScanStep.sizeByte n) := by
  induction bytes using steps.induct with
  | case1 =>
      intro p n h
      rw [steps_nil]
      exact h
  | @case2 b rest s size ih =>
      intro p n h
      rw [steps_cons]
      exact ih (sized_after_step h rfl rfl)

end Event

namespace TextPrinter

theorem sized_feedAll {p : TextPrinter} {n : UInt8} (h : p.style.Sized n) (feeds : List Bytes) :
    (p.feedAll feeds).style.Sized ((feeds.flatMap Event.steps).foldl ScanStep.sizeByte n) := by
  induction feeds generalizing p n with
  | nil => exact h
  | cons bytes rest ih =>
      rw [List.flatMap_cons, List.foldl_append]
      show ((p.feed bytes).1.feedAll rest).style.Sized _
      rw [feed_eq]
      exact ih (Event.sized_afterAll bytes h)

end TextPrinter

/-- **THE SCALE OF A PRINTER IS THAT OF THE SIZE BYTE IN FORCE**, after whatever it
    was fed.  So it lies within 1 to 16, and within the range that is documented,
    1 to 8, just if no half of this byte exceeds seven. -/
theorem scale_of_feeds {lineWidth : Nat} {p : TextPrinter}
    (made : TextPrinter.ofWidth lineWidth = .ok p) (feeds : List Bytes) :
    (p.feedAll feeds).style.Sized (Event.sizeByte (feeds.flatMap Event.steps))
      ∧ ((p.feedAll feeds).style.InRange
        ↔ (Event.sizeByte (feeds.flatMap Event.steps)).toNat % 16 ≤ 7
          ∧ (Event.sizeByte (feeds.flatMap Event.steps)).toNat / 16 ≤ 7) := by
  have fresh : p.style.Sized 0 := by
    rw [TextPrinter.ofWidth] at made
    split at made
    · cases made
    · cases made
      exact ⟨rfl, rfl⟩
  have sized := TextPrinter.sized_feedAll fresh feeds
  refine ⟨sized, ?_⟩
  obtain ⟨hwidth, hheight⟩ := sized
  rw [TextStyle.InRange, hwidth, hheight, Event.sizeByte]
  omega

/-- Two feeds: a scale that a reset undoes, and then one of eight by one. -/
theorem scale_of_two_feeds :
    TextPrinter.ofWidth 48 = .ok .standard
      ∧ (TextPrinter.standard.feedAll
          [[0x1D, 0x21, 0x12, 0x41, 0x1B, 0x40], [0x1D, 0x21, 0x07, 0x42]]).style.InRange := by
  have made : TextPrinter.ofWidth 48 = .ok .standard := rfl
  refine ⟨made, (scale_of_feeds made _).2.mpr ?_⟩
  decide +kernel

/-- All four bits of the width make it 16. -/
theorem not_inRange_of_wideByte :
    ¬ (TextPrinter.standard.feedAll [[0x1D, 0x21, 0x0F]]).style.InRange := by
  have hwidth : (TextPrinter.standard.feedAll [[0x1D, 0x21, 0x0F]]).style.width = 16 := by
    decide +kernel
  rintro ⟨⟨-, hle⟩, -⟩
  rw [hwidth] at hle
  exact absurd hle (by decide)

end ReceiptPrinter
