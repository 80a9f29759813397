import ReceiptPrinter.Proofs.Preview.Commands
import ReceiptPrinter.Proofs.Preview.Guarded

/-! # Safety of the reader — what malformed and broken off jobs can do

    Nobody has checked the bytes that a printer is fed.  A command may stand at
    the end of them without its parameters, and the lengths that it announces may
    be any.  `Guarded.feed_ends` says what can come of it.

    The theory turns on what one scan may say about the bytes in front of it
    (`Scan.Sound`).  Only three commands announce data of a length of their own
    (`Event.Announces`); every other piece lies within the bytes that are there,
    and a command that lacks some of its fixed part has fewer than eight bytes
    (`Event.sound_scan`).  The reader with guards reads the same pieces, so it
    gets through any job, and in the same steps. -/

namespace ReceiptPrinter

/-! ## What a scan says about the bytes -/

/-- A scan of so many bytes that breaks off only if there are fewer than eight, and
    whose piece is longer than they are only under a condition. -/
structure Scan.Sound (room : Nat) (announced : Prop) (s : Scan) : Prop where
  short : s = .truncated → room < 8
  pos : ∀ size event, s = .piece size event → 1 ≤ size
  within : ∀ size event, s = .piece size event → room < size → announced

/-- Bytes that begin with a command which announces the length of its data: a bar
    code, a function of `GS (`, or a raster image. -/
def Event.Announces (bytes : Bytes) : Prop :=
  ∃ rest, bytes = 0x1D :: 0x6B :: rest ∨ bytes = 0x1D :: 0x28 :: rest
    ∨ bytes = 0x1D :: 0x76 :: 0x30 :: rest

namespace Event

section

variable {announced : Prop} {room size : Nat}

theorem sound_truncated (h : room < 8) : Scan.truncated.Sound room announced where
  short _ := h
  pos _ _ e := by cases e
  within _ _ e := by cases e

theorem sound_piece {event : Event} (h : 1 ≤ size) (hroom : room < size → announced) :
    (Scan.piece size event).Sound room announced where
  short e := by cases e
  pos _ _ e := by
    cases e
    exact h
  within _ _ e := by
    cases e
    exact hroom

/-- A piece of the bytes that are there. -/
theorem sound_within {event : Event} (h : 1 ≤ size ∧ size ≤ room) :
    (Scan.piece size event).Sound room announced :=
  sound_piece h.1 fun hlt => absurd hlt (Nat.not_lt.mpr h.2)

theorem sound_silent (rest : Bytes) (low : 2 ≤ size) (high : size ≤ 8) :
    (silent size rest).Sound (rest.length + 1) announced := by
  rw [silent]
  split
  next h =>
    rw [List.isEmpty_iff, List.drop_eq_nil_iff] at h
    exact sound_truncated (by omega)
  next h =>
    rw [List.isEmpty_iff, List.drop_eq_nil_iff] at h
    exact sound_within (by omega)

theorem sound_escape (rest : Bytes) : (scanEscape rest).Sound (rest.length + 1) announced := by
  cases rest with
  | nil => exact sound_truncated (by decide)
  | cons code rest =>
      have two : ∀ event, (Scan.piece 2 event).Sound ((code :: rest).length + 1) announced := by
        intro event
        exact sound_within (by simp only [List.length_cons]; omega)
      rw [scanEscape.eq_def]
      dsimp only
      split
      · exact two _
      split
      · exact two _
      split
      · exact two _
      split
      · exact sound_silent _ (by decide) (by decide)
      split
      · exact sound_silent _ (by decide) (by decide)
      cases rest with
      | nil =>
          dsimp only
          split
          · exact sound_truncated (by simp)
          · exact two _
      | cons n rest =>
          dsimp only
          split
          · exact sound_within (by simp only [List.length_cons]; omega)
          · exact two _

theorem sound_cut (rest : Bytes) : (scanCut rest).Sound (rest.length + 2) announced := by
  cases rest with
  | nil => exact sound_truncated (by decide)
  | cons mode rest =>
      have three : ∀ event, (Scan.piece 3 event).Sound ((mode :: rest).length + 2) announced := by
        intro event
        exact sound_within (by simp only [List.length_cons]; omega)
      rw [scanCut.eq_def]
      dsimp only
      split
      · exact three _
      split
      · exact three _
      split
      · cases rest with
        | nil => exact sound_truncated (by simp)
        | cons n rest => exact sound_within (by simp only [List.length_cons]; omega)
      · exact three _

theorem sound_device (rest : Bytes) : (scanDevice rest).Sound (rest.length + 1) announced := by
  cases rest with
  | nil => exact sound_truncated (by decide)
  | cons code rest =>
      rw [scanDevice.eq_def]
      dsimp only
      split
      · exact sound_silent _ (by decide) (by decide)
      · exact sound_within (by simp only [List.length_cons]; omega)

theorem sound_text (b : UInt8) (rest : Bytes) :
    (scanText b rest).Sound (rest.length + 1) announced := by
  rcases scanText_cases b rest with ⟨event, hs⟩ | ⟨c, size, hh, hs⟩
  · rw [hs]
    exact sound_within (by omega)
  · rw [hs]
    exact sound_within (Utf8.size_of_head hh)

/-! ## Commands that announce data -/

theorem sound_barcode (h : announced) (rest : Bytes) :
    (scanBarcode rest).Sound (rest.length + 2) announced := by
  match rest with
  | [] => exact sound_truncated (by decide)
  | [kind] =>
      rw [scanBarcode.eq_def]
      dsimp only
      split
      · exact sound_piece (Nat.le_add_left _ _) fun _ => h
      · exact sound_truncated (by simp)
  | kind :: length :: rest =>
      rw [scanBarcode.eq_def]
      dsimp only
      split
      · exact sound_piece (Nat.le_add_left _ _) fun _ => h
      · exact sound_piece (Nat.le_add_left _ _) fun _ => h

theorem sound_function (h : announced) (rest : Bytes) :
    (scanFunction rest).Sound (rest.length + 2) announced := by
  match rest with
  | [] => exact sound_truncated (by decide)
  | [_] => exact sound_truncated (by simp)
  | [_, _] => exact sound_truncated (by simp)
  | _ :: _ :: _ :: rest => exact sound_piece (Nat.le_add_left _ _) fun _ => h

/-- A raster image announces its data only in the one form that there is. -/
theorem sound_raster {rest : Bytes} (h : (∃ after, rest = 0x30 :: after) → announced) :
    (scanRaster rest).Sound (rest.length + 2) announced := by
  rw [scanRaster.eq_def]
  split
  next form m wl wh hl hh rest =>
    split
    next hform => exact sound_piece (by omega) fun _ => h ⟨_, by rw [hform]⟩
    next => exact sound_within (by simp only [List.length_cons]; omega)
  next hfew =>
    refine sound_truncated ?_
    by_contra hlen
    match rest with
    | [] | [_] | [_, _] | [_, _, _] | [_, _, _, _] | [_, _, _, _, _] => simp at hlen
    | form :: m :: wl :: wh :: hl :: hh :: rest => exact hfew _ _ _ _ _ _ _ rfl

end

theorem sound_group (rest : Bytes) :
    (scanGroup rest).Sound (rest.length + 1) (Announces (0x1D :: rest)) := by
  cases rest with
  | nil => exact sound_truncated (by decide)
  | cons code rest =>
      have two : ∀ (room : Nat) (event : Event), 2 ≤ room →
          (Scan.piece 2 event).Sound room (Announces (0x1D :: code :: rest)) := by
        intro room event h
        exact sound_within (by omega)
      rw [scanGroup.eq_def]
      dsimp only
      split
      · cases rest with
        | nil => exact sound_truncated (by simp)
        | cons n rest => exact sound_within (by simp only [List.length_cons]; omega)
      split
      · cases rest with
        | nil => exact sound_truncated (by simp)
        | cons n rest => exact sound_within (by simp only [List.length_cons]; omega)
      split
      · exact sound_cut rest
      split
      next hcode => exact sound_barcode ⟨rest, .inl (by rw [hcode])⟩ rest
      split
      next hcode => exact sound_function ⟨rest, .inr (.inl (by rw [hcode]))⟩ rest
      split
      next hcode =>
        refine sound_raster ?_
        rintro ⟨after, rfl⟩
        exact ⟨after, .inr (.inr (by rw [hcode]))⟩
      split
      · exact sound_silent _ (by decide) (by decide)
      split
      · exact sound_silent _ (by decide) (by decide)
      · exact sound_within (by simp only [List.length_cons]; omega)

/-- **WHAT A SCAN MAY SAY**: it breaks off only in fewer than eight bytes, and goes
    beyond the bytes only with data that their command announces. -/
theorem sound_scan (b : UInt8) (rest : Bytes) :
    (scan b rest).Sound (rest.length + 1) (Announces (b :: rest)) := by
  rw [scan]
  split
  · exact sound_escape rest
  split
  next hgs =>
    rw [hgs]
    exact sound_group rest
  split
  · exact sound_device rest
  · exact sound_text b rest

end Event

/-- A scan that takes all bytes instead of one more is sound as well. -/
theorem Scan.Ends.sound {room : Nat} {announced : Prop} {s t : Scan} (h : s.Ends room t)
    (ht : t.Sound room announced) (hroom : 1 ≤ room) : s.Sound room announced := by
  rcases h with rfl | ⟨event, rfl, -⟩
  · exact ht
  · exact Event.sound_within ⟨hroom, Nat.le_refl _⟩

/-- It means the same to a printer. -/
theorem Scan.Ends.after {room : Nat} {s t : Scan} (h : s.Ends room t) (p : TextPrinter) :
    p.after s = p.after t := by
  rcases h with rfl | ⟨event, rfl, rfl⟩
  · rfl
  · rfl

namespace Guarded

variable (data : Array UInt8)

theorem clamp_eq (n : Nat) {least greatest : Nat} (h : least ≤ greatest) :
    clamp n least greatest = .ok (max least (min n greatest)) :=
  if_pos h

/-- The bytes from a place on that is within an array. -/
theorem part_drop {i : Nat} (hi : i < data.size) :
    ∃ b rest, data.toList.drop i = b :: rest ∧ rest.length + 1 = data.size - i
      ∧ part data i data.size = .ok (b :: rest).toArray := by
  obtain ⟨bytes⟩ := data
  have hlt : i < bytes.length := hi
  refine ⟨_, _, List.drop_eq_getElem_cons hlt, ?_, ?_⟩
  · rw [List.length_drop, List.size_toArray]
    omega
  · rw [← List.drop_eq_getElem_cons hlt]
    exact part_toArray bytes (Nat.le_of_lt hlt)

/-- A turn of the reader with guards is a step of the other one. -/
theorem turn_ends {i : Nat} (hi : i < data.size) : ∃ b rest s, data.toList.drop i = b :: rest
    ∧ rest.length + 1 = data.size - i ∧ s.Ends (rest.length + 1) (Event.scan b rest)
    ∧ turn data i = .ok (s, TextPrinter.taken (Event.scan b rest) rest + 1) := by
  obtain ⟨b, rest, hdrop, hlen, hpart⟩ := part_drop data hi
  obtain ⟨s, hs, hends⟩ := scan_ends b rest
  have hpos := (Event.sound_scan b rest).pos
  refine ⟨b, rest, s, hdrop, hlen, hends, ?_⟩
  rw [turn, hpart, ok_bind, hs, ok_bind]
  rcases hends with rfl | ⟨event, rfl, hscan⟩
  · cases hscan : Event.scan b rest with
    | truncated => rfl
    | piece size event =>
        have := hpos size event hscan
        dsimp only
        rw [clamp_eq size (by simp), ok_bind]
        simp only [TextPrinter.taken, List.length_take, List.size_toArray, List.length_cons]
        congr 2
        omega
  · dsimp only
    rw [clamp_eq _ (by simp), ok_bind, hscan]
    simp only [TextPrinter.taken, List.length_take, List.size_toArray, List.length_cons]
    congr 2
    omega

/-- From any place on, the reader with guards takes the steps of the other one. -/
theorem feedFrom_eq (p : TextPrinter) {i : Nat} (hi : i ≤ data.size) :
    feedFrom data p i = .ok (p.afterAll (Event.steps (data.toList.drop i)), data.size) := by
  induction hn : data.size - i using Nat.strong_induction_on generalizing p i with
  | _ n ih =>
      rw [feedFrom]
      split
      next hlt =>
        obtain ⟨b, rest, s, hdrop, hlen, hends, hturn⟩ := turn_ends data hlt
        have htaken := TextPrinter.taken_le (Event.scan b rest) rest
        have hrest : (data.toList.drop i).drop (TextPrinter.taken (Event.scan b rest) rest + 1)
            = rest.drop (TextPrinter.taken (Event.scan b rest) rest) := by
          rw [hdrop, List.drop_succ_cons]
        split
        next hstop =>
          rw [hturn] at hstop
          cases hstop
        next s' taken hok =>
          rw [hturn] at hok
          cases hok
          rw [ih _ (by omega) _ (by omega) rfl, hends.after, ← List.drop_drop, hrest, hdrop,
            Event.steps_cons]
          rfl
      next hge =>
        have hsize : i = data.size := by omega
        rw [hsize, ← Array.length_toList, List.drop_length, Event.steps_nil]
        rfl

/-- **NO JOB LEADS A PRINTER ASTRAY**: with every index, slice and length behind its
    guard, a printer in any state gets through any bytes, takes all of them, and
    ends up as the reader without guards leaves it.  At each place a turn takes at
    least one byte and no more than are left.  It breaks off only in the last seven
    bytes, and only data that a command announces is cut short by their end. -/
theorem feed_ends (p : TextPrinter) :
    feed p data = .ok ((p.feed data.toList).1, data.size)
    ∧ (p.feed data.toList).2 = data.size
    ∧ ∀ i < data.size, ∃ s taken, turn data i = .ok (s, taken)
        ∧ 1 ≤ taken ∧ taken ≤ data.size - i
        ∧ (s = .truncated → data.size - i < 8)
        ∧ ∀ size event, s = .piece size event → data.size - i < size →
            Event.Announces (data.toList.drop i) := by
  rw [feed, feedFrom_eq data p (Nat.zero_le _), TextPrinter.feed_eq, List.drop_zero,
    Array.length_toList]
  refine ⟨rfl, rfl, ?_⟩
  intro i hi
  obtain ⟨b, rest, s, hdrop, hlen, hends, hturn⟩ := turn_ends data hi
  have hsound := hends.sound (Event.sound_scan b rest) (Nat.le_add_left _ _)
  have htaken := TextPrinter.taken_le (Event.scan b rest) rest
  rw [hdrop, ← hlen]
  exact ⟨s, _, hturn, by omega, by omega, hsound.short, hsound.within⟩

/-- A bar code that announces ten bytes of data and has one. -/
example : turn #[0x1D, 0x6B, 73, 10, 65] 0 = .ok (.piece 14 (.barcode 73 [65]), 5) := by
  rfl

end Guarded

end ReceiptPrinter
