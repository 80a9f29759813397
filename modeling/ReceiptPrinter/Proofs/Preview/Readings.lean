import ReceiptPrinter.Proofs.Preview.Commands

/-! # Readings — what a piece of a job may mean

    The reader has a branch for every command, and what a printer keeps of its job
    is a matter of a few of them.  Three events concern the letters on the line: a
    character, the size of those that follow, and the reset, which undoes the size.
    `Event.says_scan` goes through the branches once.  A property of all other
    events is one of whatever is read, if these three have it where they are read: a
    reset behind `ESC @`, a size behind `GS !`, and only such characters as are no
    control characters of ASCII. -/

namespace ReceiptPrinter

/-- A control character of ASCII. -/
def Text.IsControl (c : Char) : Prop :=
  c.toNat < 32 ∨ c.toNat = 127

/-- What is read, if it is a piece, has a property. -/
def Scan.Says (s : Scan) (P : Event → Prop) : Prop :=
  ∀ size event, s = .piece size event → P event

namespace Event

/-- Whether an event puts a character on the line, or changes the size of those that
    follow. -/
def concernsLetters : Event → Bool
  | .character _ | .scale .. | .reset => true
  | _ => false

/-! ## Commands -/

/-- No command with one parameter after `ESC` concerns the letters. -/
theorem concernsLetters_ofEscape {code n : UInt8} {event : Event}
    (h : ofEscape code n = some event) : event.concernsLetters = false := by
  rw [ofEscape] at h
  repeat' split at h
  all_goals cases h
  all_goals rfl

/-- No function of `GS (` does, whatever its parameters. -/
theorem concernsLetters_ofFunction (group : UInt8) (parameters : Bytes) :
    (ofFunction group parameters).concernsLetters = false := by
  rw [ofFunction.eq_def]
  repeat' split
  all_goals rfl

section

variable {P : Event → Prop}

theorem says_truncated : Scan.truncated.Says P := by
  intro size event h
  cases h

theorem says_piece {size : Nat} {event : Event} (h : P event) : (Scan.piece size event).Says P := by
  intro _ _ e
  cases e
  exact h

theorem says_ite {c : Prop} [Decidable c] {s t : Scan} (left : c → s.Says P) (right : t.Says P) :
    (if c then s else t).Says P := by
  split
  next h => exact left h
  · exact right

variable (others : ∀ event : Event, event.concernsLetters = false → P event)
include others

theorem says_silent (size : Nat) (rest : Bytes) : (silent size rest).Says P := by
  rw [silent]
  exact says_ite (fun _ => says_truncated) (says_piece (others _ rfl))

theorem says_escape {rest : Bytes} (reset : rest.head? = some 0x40 → P .reset) :
    (scanEscape rest).Says P := by
  cases rest with
  | nil => exact says_truncated
  | cons code rest =>
      rw [scanEscape.eq_def]
      dsimp only
      refine says_ite (fun hcode => says_piece (reset (congrArg some hcode))) ?_
      refine says_ite (fun _ => says_piece (others _ rfl)) ?_
      refine says_ite (fun _ => says_piece (others _ rfl)) ?_
      refine says_ite (fun _ => says_silent others _ _) ?_
      refine says_ite (fun _ => says_silent others _ _) ?_
      cases rest with
      | nil => exact says_ite (fun _ => says_truncated) (says_piece (others _ rfl))
      | cons n rest =>
          dsimp only
          split
          next event he => exact says_piece (others event (concernsLetters_ofEscape he))
          · exact says_piece (others _ rfl)

theorem says_cut (rest : Bytes) : (scanCut rest).Says P := by
  cases rest with
  | nil => exact says_truncated
  | cons mode rest =>
      rw [scanCut.eq_def]
      dsimp only
      refine says_ite (fun _ => says_piece (others _ rfl)) ?_
      refine says_ite (fun _ => says_piece (others _ rfl)) ?_
      refine says_ite (fun _ => ?_) (says_piece (others _ rfl))
      exact says_ite (fun _ => says_truncated) (says_piece (others _ rfl))

theorem says_barcode (rest : Bytes) : (scanBarcode rest).Says P := by
  cases rest with
  | nil => exact says_truncated
  | cons kind rest =>
      rw [scanBarcode.eq_def]
      dsimp only
      refine says_ite (fun _ => says_piece (others _ rfl)) ?_
      cases rest with
      | nil => exact says_truncated
      | cons length rest => exact says_piece (others _ rfl)

theorem says_function (rest : Bytes) : (scanFunction rest).Says P := by
  rw [scanFunction.eq_def]
  split
  · exact says_piece (others _ (concernsLetters_ofFunction _ _))
  · exact says_truncated

theorem says_raster (rest : Bytes) : (scanRaster rest).Says P := by
  rw [scanRaster.eq_def]
  split
  · exact says_ite (fun _ => says_piece (others _ rfl)) (says_piece (others _ rfl))
  · exact says_truncated

theorem says_group {rest : Bytes}
    (scale : rest.head? = some 0x21 → ∀ width height, P (.scale width height)) :
    (scanGroup rest).Says P := by
  cases rest with
  | nil => exact says_truncated
  | cons code rest =>
      rw [scanGroup.eq_def]
      dsimp only
      refine says_ite (fun hcode => ?_) ?_
      · cases rest with
        | nil => exact says_truncated
        | cons n rest => exact says_piece (scale (congrArg some hcode) _ _)
      refine says_ite (fun _ => ?_) ?_
      · cases rest with
        | nil => exact says_truncated
        | cons n rest => exact says_piece (others _ rfl)
      refine says_ite (fun _ => says_cut others rest) ?_
      refine says_ite (fun _ => says_barcode others rest) ?_
      refine says_ite (fun _ => says_function others rest) ?_
      refine says_ite (fun _ => says_raster others rest) ?_
      refine says_ite (fun _ => says_silent others _ _) ?_
      exact says_ite (fun _ => says_silent others _ _) (says_piece (others _ rfl))

theorem says_device (rest : Bytes) : (scanDevice rest).Says P := by
  cases rest with
  | nil => exact says_truncated
  | cons code rest =>
      exact says_ite (fun _ => says_silent others _ _) (says_piece (others _ rfl))

/-! ## Text -/

/-- No control character is read as one for the line, not even from a sequence of
    several bytes. -/
theorem says_text (b : UInt8) (rest : Bytes)
    (character : ∀ c, ¬ Text.IsControl c → P (.character c)) : (scanText b rest).Says P := by
  rw [scanText]
  refine says_ite (fun _ => says_piece (others _ rfl)) ?_
  refine says_ite (fun _ => says_piece (others _ rfl)) ?_
  refine says_ite (fun _ => says_piece (others _ rfl)) ?_
  by_cases hcontrol : b < 0x20 ∨ b = 0x7F
  · rw [if_pos hcontrol]
    exact says_piece (others _ rfl)
  rw [if_neg hcontrol]
  rw [UInt8.lt_iff_toNat_lt, ← UInt8.toNat_inj] at hcontrol
  have hbyte : ¬ Text.IsControl (Char.ofNat b.toNat) := by
    have hlt := b.toNat_lt
    rwa [Text.IsControl, Utf8.toNat_ofNat (by omega)]
  cases hh : Utf8.head b rest with
  | broken size => exact says_piece (character _ hbyte)
  | scalar c size =>
      refine says_piece (character c ?_)
      rcases Nat.lt_or_ge b.toNat 128 with low | high
      · rw [Utf8.head_eq, if_pos low] at hh
        cases hh
        exact hbyte
      · have hc := Utf8.high_char_of_head hh high
        rw [Text.IsControl]
        omega

/-- **WHAT A PIECE MAY MEAN**, branch by branch: besides the events that do not
    concern the letters a reset, a size, and a character that is none of control,
    each in its place. -/
theorem says_scan (b : UInt8) (rest : Bytes)
    (reset : b = 0x1B → rest.head? = some 0x40 → P .reset)
    (scale : b = 0x1D → rest.head? = some 0x21 → ∀ width height, P (.scale width height))
    (character : ∀ c, ¬ Text.IsControl c → P (.character c)) : (scan b rest).Says P := by
  rw [scan]
  refine says_ite (fun hesc => says_escape others (reset hesc)) ?_
  refine says_ite (fun hgs => says_group others (scale hgs)) ?_
  exact says_ite (fun _ => says_device others rest) (says_text others b rest character)

end

end Event

end ReceiptPrinter
