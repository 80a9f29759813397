import ReceiptPrinter.Proofs.Image.Guarded.Basic
import ReceiptPrinter.Proofs.Image.Pixels

/-! # Guarded headers — the fields and the palette of a BMP file

    The first thing that is looked at is the length of the file.  After that all
    fields of the header are there (`Guarded.header_eq`).  Where the palette is comes
    out of the file, so its end is taken with sums that stay at the greatest number
    instead of stopping, and is compared with the length before anything is read
    (`Guarded.palette_eq`). -/

namespace ReceiptPrinter

open Bmp

namespace Guarded

variable {data : Array UInt8} {profile : Profile} {h : Header}

/-! ## Numbers -/

/-- The number of two bytes at an offset. -/
def word (data : Array UInt8) (offset : Nat) : Guarded Nat := do
  let low ← look data offset
  let high ← look data (← fits 64 (offset + 1))
  .ok (low.toNat + 256 * high.toNat)

/-- The number of four bytes at an offset. -/
def long (data : Array UInt8) (offset : Nat) : Guarded Nat := do
  let low ← word data offset
  let high ← word data (← fits 64 (offset + 2))
  .ok (low + 65536 * high)

/-- A number of 32 bits read as a signed one. -/
def asSigned (n : Nat) : Int :=
  if n < 2147483648 then (n : Int) else (n : Int) - 4294967296

theorem word_eq (size : data.size < 2 ^ 63) {offset : Nat} (ho : offset + 2 ≤ data.size) :
    word data offset = .ok (wordAt data offset) := by
  rw [word, look_of_lt 0 (show offset < data.size by omega), ok_bind, fits_of_lt (by omega),
    ok_bind, look_of_lt 0 (show offset + 1 < data.size by omega), ok_bind]
  rfl

theorem long_eq (size : data.size < 2 ^ 63) {offset : Nat} (ho : offset + 4 ≤ data.size) :
    long data offset = .ok (longAt data offset) := by
  rw [long, word_eq size (by omega), ok_bind, fits_of_lt (by omega), ok_bind,
    word_eq size (by omega), ok_bind]
  rfl

/-! ## The header -/

/-- The header of a file for a printer. -/
def header (profile : Profile) (data : Array UInt8) : Guarded Header := do
  refuseIf (data.size < 54) (.tooSmall data.size)
  let mark ← part data 0 2
  refuseIf (mark != #[0x42, 0x4D]) .badSignature
  let pixelOffset ← long data 10
  let size ← long data 14
  refuseIf (size < 40) (.unsupportedHeader size)
  let width := asSigned (← long data 18)
  let height := asSigned (← long data 22)
  let planes ← word data 26
  let bits ← word data 28
  let compression ← long data 30
  refuseIf (planes != 1) (.unsupportedPlanes planes)
  refuseIf (!depths.contains bits) (.unsupportedBitDepth bits)
  refuseIf (2 < compression) (.unsupportedCompression compression)
  let runLength := match compression with
    | 1 => some RunLength.rle8
    | 2 => some RunLength.rle4
    | _ => none
  let h : Header := {
    pixelOffset, size, bits, runLength
    width := width.toNat
    height := height.natAbs
    topDown := decide (height < 0) }
  refuse? h.mismatch?
  refuseIf (width ≤ 0) (.invalidWidth width)
  refuseIf (h.height == 0) .zeroHeight
  refuseIf (profile.maxWidth < h.width) (.widthTooLarge h.width profile.maxWidth)
  refuseIf (profile.maxHeight < h.height) (.heightTooLarge h.height profile.maxHeight)
  let payload ← fits 64 (10 + rowBytes h.width * h.height)
  refuseIf (65535 < payload) (.payloadTooLarge payload)
  .ok h

/-- A result behind checks. -/
def behind {α : Type} (checks : List (Option BitmapFault)) (a : α) : Guarded α :=
  match firstFault checks with
  | some fault => .error (.refused fault)
  | none => .ok a

theorem behind_cons {α : Type} (check : Option BitmapFault) (rest : List (Option BitmapFault))
    (a : α) : behind (check :: rest) a = refuse? check >>= fun _ => behind rest a := by
  cases check <;> rfl

theorem lift_read (profile : Profile) (data : Array UInt8) :
    lift (Header.read profile data) = behind (Header.checks profile data) (Header.fields data) := by
  rw [Header.read, behind]
  cases firstFault (Header.checks profile data) <;> rfl

/-- A number of four bytes has 32 bits. -/
theorem longAt_lt (data : Array UInt8) (offset : Nat) : longAt data offset < 2 ^ 32 := by
  have h0 := byteAt_lt data offset
  have h1 := byteAt_lt data (offset + 1)
  have h2 := byteAt_lt data (offset + 2)
  have h3 := byteAt_lt data (offset + 3)
  simp only [longAt, wordAt, Nat.add_assoc, Nat.reduceAdd]
  omega

theorem asSigned_lt (data : Array UInt8) (offset : Nat) :
    (asSigned (longAt data offset)).toNat ≤ 2 ^ 31
      ∧ (asSigned (longAt data offset)).natAbs ≤ 2 ^ 31 := by
  have h := longAt_lt data offset
  rw [asSigned]
  split <;> omega

/-- No size that a header can give makes a payload that is too large to count. -/
theorem payload_lt (data : Array UInt8) :
    10 + rowBytes (asSigned (longAt data 18)).toNat * (asSigned (longAt data 22)).natAbs
      < 2 ^ 64 := by
  have hwidth : rowBytes (asSigned (longAt data 18)).toNat ≤ 2 ^ 28 := by
    have := (asSigned_lt data 18).1
    rw [rowBytes]
    omega
  have hproduct := Nat.mul_le_mul hwidth (asSigned_lt data 22).2
  omega

/-- The mark at the start of a file is the number of its two bytes. -/
theorem mark_eq (hsize : 2 ≤ data.size) :
    (data.extract 0 2 != #[0x42, 0x4D]) = (wordAt data 0 != 0x4D42) := by
  have hbytes : data.extract 0 2 = #[data.getD 0 0, data.getD 1 0] := by
    apply Array.ext_getElem?
    intro i
    rw [Array.getElem?_extract, Nat.min_eq_left hsize]
    match i with
    | 0 => simp [Array.getElem?_eq_getElem (show 0 < data.size by omega)]
    | 1 => simp [Array.getElem?_eq_getElem (show 1 < data.size by omega)]
    | i + 2 => rw [if_neg (by omega)]; rfl
  have key : ∀ a b : UInt8, #[a, b] = #[0x42, 0x4D] ↔ a.toNat + 256 * b.toNat = 0x4D42 := by
    intro a b
    have ha := a.toNat_lt
    have hb := b.toNat_lt
    rw [Array.mk.injEq, List.cons.injEq, List.cons.injEq, ← UInt8.toNat_inj, ← UInt8.toNat_inj]
    simp
    omega
  rw [hbytes, Bool.eq_iff_iff, bne_iff_ne, bne_iff_ne]
  exact not_congr (key _ _)

/-- **THE HEADER IS READ WITHIN THE FILE.** -/
theorem header_eq (profile : Profile) (size : data.size < 2 ^ 63) :
    header profile data = lift (Header.read profile data) := by
  rw [lift_read, header, Header.checks]
  simp only [behind_cons]
  by_cases hshort : data.size < 54
  · simp only [refuseIf, faultIf, hshort]
    rfl
  · simp (disch := omega) only [part_of_le, mark_eq, long_eq size, word_eq size, ok_bind,
      fits_of_lt (payload_lt data)]
    rfl

/-- An accepted header gives a small image: its rows have a byte at least, and all
    of them together fit into the payload. -/
theorem limits_of_sound (sound : h.Sound profile data) :
    0 < h.width ∧ h.width ≤ 524200 ∧ h.height ≤ 65525 := by
  have hwidth : 0 < h.width := by
    have := sound.width_eq
    have := sound.width_pos
    omega
  have hpayload : 10 + rowBytes h.width * h.height ≤ 65535 := sound.payload_le
  have hbytes : 0 < rowBytes h.width := by
    rw [rowBytes]
    omega
  have hrows := Nat.le_mul_of_pos_left h.height hbytes
  have hcolumns := Nat.le_mul_of_pos_right (rowBytes h.width) sound.height_pos
  have hdots := Bitmap.le_rowBytes h.width
  exact ⟨hwidth, by omega, by omega⟩

/-! ## The palette -/

/-- A sum that stays at the greatest number of 64 bits. -/
def saturating (m n : Nat) : Nat :=
  min (m + n) (2 ^ 64 - 1)

/-- The colour of three bytes at an offset, blue first. -/
def color (xs : Array UInt8) (offset : Nat) : Guarded Color := do
  let red ← look xs (← fits 64 (offset + 2))
  let green ← look xs (← fits 64 (offset + 1))
  let blue ← look xs offset
  .ok ⟨red.toNat, green.toNat, blue.toNat⟩

/-- The palette of a file; files with direct colours have an empty one. -/
def palette (h : Header) (data : Array UInt8) : Guarded (Array Color) :=
  if 8 < h.bits then .ok #[]
  else do
    let entries ← fits 64 (1 <<< h.bits)
    let start := saturating 14 h.size
    let stop := saturating start (← fits 64 (entries * 4))
    refuseIf (data.size < stop) .truncatedPalette
    let bytes ← part data start stop
    let colors ← (List.range (bytes.size / 4)).mapM fun i => do
      let entry ← part bytes (4 * i) (4 * i + 4)
      color entry 0
    .ok colors.toArray

theorem color_eq {xs : Array UInt8} (size : xs.size < 2 ^ 63) {offset : Nat}
    (ho : offset + 3 ≤ xs.size) : color xs offset = .ok (colorAt xs offset) := by
  simp (disch := omega) only [color, fits_of_lt, look_of_lt (0 : UInt8), ok_bind]
  rfl

/-- A number in a part of a file is one of the file. -/
theorem wordAt_extract {start stop offset : Nat} (ho : offset + 2 ≤ stop - start)
    (hstop : stop ≤ data.size) :
    wordAt (data.extract start stop) offset = wordAt data (start + offset) := by
  simp (disch := omega) only [wordAt, byteAt, getD_extract]
  rfl

/-- A colour in a part of a file is one of the file. -/
theorem colorAt_extract {start stop offset : Nat} (ho : offset + 3 ≤ stop - start)
    (hstop : stop ≤ data.size) :
    colorAt (data.extract start stop) offset = colorAt data (start + offset) := by
  simp (disch := omega) only [colorAt, byteAt, getD_extract]
  rfl

/-- So many colours of four bytes each, if the file has room for them. -/
theorem colors_eq {start count : Nat} (room : start + 4 * count ≤ data.size) :
    ((List.range count).mapM fun i => do
        let entry ← part (data.extract start (start + 4 * count)) (4 * i) (4 * i + 4)
        color entry 0)
      = .ok ((List.range count).map fun i => colorAt data (start + 4 * i)) := by
  apply mapM_eq
  intro i hi
  rw [List.mem_range] at hi
  have hpart : (data.extract start (start + 4 * count)).size = 4 * count := by
    rw [Array.size_extract]
    omega
  have hentry : ((data.extract start (start + 4 * count)).extract (4 * i) (4 * i + 4)).size
      = 4 := by
    rw [Array.size_extract, hpart]
    omega
  rw [part_of_le (by omega) (by omega), ok_bind, color_eq (by omega) (by omega),
    colorAt_extract (by omega) (by omega), colorAt_extract (by omega) (by omega), Nat.add_zero]

/-- **THE PALETTE IS READ WITHIN THE FILE**, whatever the header says of its
    place. -/
theorem palette_eq (sound : h.Sound profile data) :
    palette h data = lift (h.palette data) := by
  have hsize : h.size < 2 ^ 32 := sound.fields ▸ longAt_lt data 14
  rw [palette, Header.palette]
  by_cases hdirect : 8 < h.bits
  · have hnone : h.paletteSize = 0 := if_neg (Nat.not_le.mpr hdirect)
    rw [if_pos hdirect, if_neg fun k => Nat.not_le.mpr hdirect k.2, hnone]
    rfl
  · rw [Nat.not_lt] at hdirect
    have hentries : 1 <<< h.bits = h.paletteSize := by
      rw [Header.paletteSize, if_pos hdirect, Nat.one_shiftLeft]
      rfl
    have hcount : h.paletteSize ≤ 256 := by
      rw [Header.paletteSize, if_pos hdirect]
      exact Nat.pow_le_pow_right (by decide) hdirect
    have hstart : saturating 14 h.size = h.paletteStart := by
      rw [saturating, Header.paletteStart]
      omega
    have hstop : saturating h.paletteStart (h.paletteSize * 4)
        = h.paletteStart + 4 * h.paletteSize := by
      rw [saturating, Header.paletteStart]
      omega
    rw [if_neg (Nat.not_lt.mpr hdirect), hentries, fits_of_lt (by omega), ok_bind, hstart]
    dsimp only
    rw [fits_of_lt (by omega), ok_bind, hstop]
    by_cases hshort : data.size < h.paletteStart + 4 * h.paletteSize
    · rw [if_pos ⟨hshort, hdirect⟩, decide_eq_true hshort]
      rfl
    · have hpart : (data.extract h.paletteStart (h.paletteStart + 4 * h.paletteSize)).size
          = 4 * h.paletteSize := by
        rw [Array.size_extract]
        omega
      rw [if_neg fun k => hshort k.1, decide_eq_false hshort]
      show (part data _ _ >>= _) = _
      rw [part_of_le (by omega) (by omega), ok_bind, hpart, Nat.mul_div_cancel_left _ (by decide),
        colors_eq (by omega), ok_bind, lift_ok]
      congr 1
      apply Array.ext
      · simp
      · intro i hi hi'
        simp

end Guarded

end ReceiptPrinter
