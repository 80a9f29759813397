import ReceiptPrinter.Proofs.Image.Guarded.Runs

/-! # Safety — no file makes the transcoder index or count astray

    All numbers that the transcoder works with come from a file that nobody has
    checked: where the palette and the pixels are, how large the image is, what a
    pixel's colour is, how far the cursor goes.  `Guarded.transcode` does all of its
    indexing and arithmetic behind guards, and `Guarded.transcode_ends` says what can
    come of it: a fault, or the image, and these are the ones that the transcoder
    gives.

    One sum has no bound of its own.  The column of the cursor in run-length data
    grows with each move, by at most 255 for four bytes of the file.  It outgrows 64
    bits only in a file of more than 2⁵⁸ bytes, and no 64-bit machine has addresses
    for one. -/

namespace ReceiptPrinter

open Bmp

namespace Guarded

variable {data : Array UInt8} {profile : Profile}

/-- The bitmap of a file for a printer, with a guard on each index and each result. -/
def transcode (profile : Profile) (data : Array UInt8) : Guarded Raster := do
  let h ← header profile data
  let colors ← palette h data
  let raster ← Raster.blank h.width h.height
  match h.runLength with
  | none => rows h data colors raster
  | some e => runs h e data colors raster

/-- The guards let through what the transcoder does, for files that are not too
    long for the column of a cursor. -/
theorem transcode_eq (profile : Profile) (size : data.size < 2 ^ 63) :
    transcode profile data = lift ((transcodeFor profile data).map Bitmap.raster)
      ∨ transcode profile data = .error .overflow ∧ 2 ^ 58 < data.size := by
  rw [transcode, transcodeFor, header_eq profile size]
  cases hread : Header.read profile data with
  | error fault => exact .inl rfl
  | ok h =>
      have sound := Header.sound_of_read hread
      rw [lift_ok, ok_bind, palette_eq sound]
      show (lift (h.palette data) >>= _) = lift (Except.map _ (h.palette data >>= _)) ∨ _
      cases hpalette : h.palette data with
      | error fault => exact .inl rfl
      | ok colors =>
          have covers := covers_of_palette hpalette
          have hblank : Raster.blank h.width h.height
              = .ok (Bitmap.blank h.width h.height).raster := by
            have hpayload : 10 + rowBytes h.width * h.height ≤ 65535 := sound.payload_le
            exact Raster.blank_eq (by omega)
          rw [lift_ok, ok_bind, hblank, ok_bind]
          show _ = lift (Except.map _ (match h.runLength with | none => _ | some e => _)) ∨ _
          cases hrun : h.runLength with
          | none => exact .inl (rows_eq sound covers size)
          | some e => exact runs_eq sound covers hrun size

/-- **THE TRANSCODER IS SAFE ON EVERY FILE**, for every limit on the size of an
    image.  With all guards in place it refuses the file, for the fault that the
    transcoder gives, or it comes to the transcoder's image.  That is a dot at least
    and within the limits, has exactly the bytes of its rows, and fits into the
    payload.  No index is ever outside of its array, and no result outgrows its type
    in a file of up to 2⁵⁸ bytes. -/
theorem transcode_ends (profile : Profile) (data : Array UInt8) (size : data.size < 2 ^ 63) :
    (∃ fault, transcode profile data = .error (.refused fault)
        ∧ transcodeFor profile data = .error fault)
      ∨ (∃ image, transcode profile data = .ok image.raster
        ∧ transcodeFor profile data = .ok image
        ∧ 1 ≤ image.width ∧ image.width ≤ profile.maxWidth
        ∧ 1 ≤ image.height ∧ image.height ≤ profile.maxHeight
        ∧ image.data.size = (image.width + 7) / 8 * image.height
        ∧ 10 + image.data.size ≤ 65535)
      ∨ transcode profile data = .error .overflow ∧ 2 ^ 58 < data.size := by
  rcases transcode_eq profile size with heq | hlong
  · cases himage : transcodeFor profile data with
    | error fault => exact .inl ⟨fault, by rw [heq, himage]; rfl, rfl⟩
    | ok image =>
        refine .inr (.inl ⟨image, by rw [heq, himage]; rfl, rfl, ?_⟩)
        rw [transcodeFor] at himage
        obtain ⟨h, hread, himage⟩ := bind_eq_ok himage
        obtain ⟨colors, -, himage⟩ := bind_eq_ok himage
        have sound := Header.sound_of_read hread
        obtain ⟨hpos, -, -⟩ := limits_of_sound sound
        obtain ⟨hwidth, hheight⟩ := Header.size_of_image himage
        rw [image.size_data, hwidth, hheight]
        exact ⟨hpos, sound.width_le, sound.height_pos, sound.height_le, rfl, sound.payload_le⟩
  · exact .inr (.inr hlong)

/-- A file of six by two pixels whose run-length data run past the right edge, end
    in a move that leaves the image, and break off. -/
def leavingFile : Array UInt8 :=
  (([0x42, 0x4D, 0x88, 0, 0, 0, 0, 0, 0, 0, 118, 0, 0, 0,
    40, 0, 0, 0, 6, 0, 0, 0, 2, 0, 0, 0, 1, 0, 4, 0, 2, 0, 0, 0, 18, 0, 0, 0,
    0, 0, 0, 0, 0, 0, 0, 0, 0, 0, 0, 0, 0, 0, 0, 0,
    0xFF, 0xFF, 0xFF, 0, 0, 0, 0, 0, 0xFF, 0xFF, 0xFF, 0] : Bytes) ++ List.replicate 52 0
    ++ [0x07, 0x12, 0x00, 0x00, 0x00, 0x05, 0x34, 0x56, 0x7F, 0xFF, 0x00, 0x02, 0xFF, 0xFF,
      0x02, 0x77, 0x00]).toArray

/-- Its image. -/
def leavingImage : Bitmap := ⟨6, 2, #[0xF8, 0xA8], rfl⟩

/-- The run is cut at the edge, and nothing is painted after the move. -/
theorem transcode_leavingFile :
    leavingFile.size < 2 ^ 63 ∧ transcode .tmT20 leavingFile = .ok leavingImage.raster := by
  have size : leavingFile.size = 135 := by decide +kernel
  have accepted : transcodeFor .tmT20 leavingFile = .ok leavingImage :=
    ok_of_toOption (by decide +kernel)
  refine ⟨by omega, ?_⟩
  rcases transcode_ends .tmT20 leavingFile (by omega) with
    ⟨fault, -, hfault⟩ | ⟨image, hok, himage, -⟩ | ⟨-, hlong⟩
  · rw [accepted] at hfault
    cases hfault
  · rw [hok, Except.ok.inj (himage.symm.trans accepted)]
  · omega

end Guarded

end ReceiptPrinter
