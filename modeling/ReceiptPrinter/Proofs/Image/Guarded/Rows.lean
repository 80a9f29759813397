import ReceiptPrinter.Proofs.Image.Guarded.Header
import ReceiptPrinter.Proofs.Image.Painting

/-! # Guarded rows — pixels without run lengths

    All rows of an image are in the file once one number is compared with its
    length.  From that the part of the file that is a row comes through for every
    row, and a pixel's bytes are in the row since a row has the bits of all its
    pixels.  The number of a colour has as many bits as a pixel, and the palette has
    an entry for each such number (`Covers`).

    `Guarded.rows_eq` puts this together: the loops over rows and columns come
    through, and draw the image. -/

namespace ReceiptPrinter

open Bmp

/-- A colour whose parts are bytes. -/
def Bmp.Color.Fits (c : Color) : Prop :=
  c.red < 256 ∧ c.green < 256 ∧ c.blue < 256

/-- A palette with an entry for each number of so many bits. -/
structure Bmp.Covers (palette : Array Color) (bits : Nat) : Prop where
  size : bits ≤ 8 → palette.size = 2 ^ bits
  fits : ∀ index, (paletteColor palette index).Fits

/-- An image of the size that a header gives. -/
def Bmp.Header.Sized (h : Header) (b : Bitmap) : Prop :=
  b.width = h.width ∧ b.height = h.height

namespace Guarded

variable {data : Array UInt8} {profile : Profile} {h : Header} {colors : Array Color}

/-! ## Colours -/

theorem fits_colorAt (data : Array UInt8) (offset : Nat) : (colorAt data offset).Fits :=
  ⟨byteAt_lt data _, byteAt_lt data _, byteAt_lt data _⟩

theorem fits_fiveBitColor (n : Nat) : (fiveBitColor n).Fits := by
  have key : ∀ v, v % 32 * 255 / 31 < 256 := fun v => by omega
  exact ⟨key _, key _, key _⟩

/-- The palette of a file has an entry for each number of a pixel's bits. -/
theorem covers_of_palette (hpalette : h.palette data = .ok colors) : Covers colors h.bits := by
  rw [Header.palette] at hpalette
  split at hpalette
  · cases hpalette
  · cases hpalette
    refine ⟨?_, ?_⟩
    · intro hbits
      rw [Array.size_ofFn, Header.paletteSize, if_pos hbits]
      rfl
    · intro index
      rw [paletteColor, Array.getD_eq_getD_getElem?, Array.getElem?_ofFn]
      split
      · exact fits_colorAt _ _
      · exact ⟨by decide, by decide, by decide⟩

/-- Whether a colour prints as a black dot. -/
def isDark (c : Color) : Guarded Bool := do
  let sum ← fits 32 (c.red * 30 + c.green * 59 + c.blue * 11)
  .ok (sum / 100 < 128)

theorem isDark_eq {c : Color} (hc : c.Fits) : isDark c = .ok c.isDark := by
  obtain ⟨hr, hg, hb⟩ := hc
  rw [isDark, fits_of_lt (by omega), ok_bind, Color.isDark, Nat.mul_comm c.red,
    Nat.mul_comm c.green, Nat.mul_comm c.blue]

/-- A part of five bits as one of eight. -/
def expand (n : Nat) : Guarded Nat := do
  let part ← fits 32 ((n &&& 0x1F) * 255)
  .ok (part / 31 % 256)

theorem expand_eq (n : Nat) : expand n = .ok (n % 32 * 255 / 31) := by
  have hmask : n &&& 0x1F = n % 32 := Nat.and_two_pow_sub_one_eq_mod n 5
  rw [expand, hmask, fits_of_lt (by omega), ok_bind, Nat.mod_eq_of_lt (by omega)]

/-- The colour of a pixel in the bytes of its row. -/
def pixel (colors : Array Color) (bits : Nat) (row : Array UInt8) (x : Nat) : Guarded Color :=
  match bits with
  | 1 => do
    let byte ← look row (x / 8)
    let index ← shift byte (← minus 7 (x % 8))
    look colors (index &&& 1).toNat
  | 4 => do
    let byte ← look row (x / 2)
    let index ← shift byte (← fits 64 ((← minus 1 (x % 2)) * 4))
    look colors (index &&& 0x0F).toNat
  | 8 => do
    let index ← look row x
    look colors index.toNat
  | 16 => do
    let n ← word row (← fits 64 (2 * x))
    let red ← expand (n >>> 10)
    let green ← expand (n >>> 5)
    let blue ← expand n
    .ok ⟨red, green, blue⟩
  | 24 => do
    color row (← fits 64 (3 * x))
  | _ => do
    color row (← fits 64 (4 * x))

/-- The low bits of a byte that was shifted. -/
theorem toNat_shift_and (byte : UInt8) (amount bits : Nat) (ha : amount < 8) (hb : bits ≤ 8) :
    ((byte >>> UInt8.ofNat amount) &&& UInt8.ofNat (2 ^ bits - 1)).toNat
      = byte.toNat / 2 ^ amount % 2 ^ bits := by
  have hmask : 2 ^ bits ≤ 2 ^ 8 := Nat.pow_le_pow_right (by decide) hb
  rw [UInt8.toNat_and, UInt8.toNat_shiftRight,
    UInt8.toNat_ofNat_of_lt' (by show amount < 256; omega),
    UInt8.toNat_ofNat_of_lt' (by show _ < 256; omega), Nat.mod_eq_of_lt ha,
    Nat.and_two_pow_sub_one_eq_mod, Nat.shiftRight_eq_div_pow]

/-- **A PIXEL IS READ WITHIN ITS ROW**, and its number is one of the palette. -/
theorem pixel_eq (covers : Covers colors h.bits) (hdepth : h.bits ∈ depths)
    (size : data.size < 2 ^ 63) {start x : Nat} (room : start + h.rowStride ≤ data.size)
    (hx : x < h.width) :
    pixel colors h.bits (data.extract start (start + h.rowStride)) x
      = .ok (pixelAt data colors h.bits start x) := by
  have hsize : (data.extract start (start + h.rowStride)).size = h.rowStride := by
    rw [Array.size_extract]
    omega
  have hbyte : ∀ i, i < h.rowStride → look (data.extract start (start + h.rowStride)) i
      = .ok (data.getD (start + i) 0) := by
    intro i hi
    rw [look_of_lt 0 (by omega), getD_extract (by omega) room]
  have hword : ∀ i, i + 2 ≤ h.rowStride → word (data.extract start (start + h.rowStride)) i
      = .ok (wordAt data (start + i)) := by
    intro i hi
    rw [word_eq (by omega) (by omega), wordAt_extract (by omega) room]
  have hcolor : ∀ i, i + 3 ≤ h.rowStride → color (data.extract start (start + h.rowStride)) i
      = .ok (colorAt data (start + i)) := by
    intro i hi
    rw [color_eq (by omega) (by omega), colorAt_extract (by omega) room]
  have hentry : ∀ index, h.bits ≤ 8 → index < 2 ^ h.bits →
      look colors index = .ok (paletteColor colors index) :=
    fun index hbits hindex => look_of_lt .black (covers.size hbits ▸ hindex)
  have hstride : h.rowStride = (h.width * h.bits + 31) / 32 * 4 := rfl
  generalize data.extract start (start + h.rowStride) = row at *
  simp only [depths, List.mem_cons, List.not_mem_nil, or_false] at hdepth
  -- Numbers of less than a byte are shifted to its low bits; the others begin on one.
  rcases hdepth with hb | hb | hb | hb | hb | hb <;> rw [hb] at hentry hstride ⊢
  · have hindex := toNat_shift_and (data.getD (start + x / 8) 0) (7 - x % 8) 1
      (by omega) (by decide)
    rw [pixel, hbyte _ (by omega), ok_bind, minus_of_le (by omega), ok_bind,
      shift_of_lt _ (by omega), ok_bind]
    refine (congrArg (look colors) hindex).trans ?_
    exact hentry _ (by decide) (Nat.mod_lt _ (by decide))
  · have hindex := toNat_shift_and (data.getD (start + x / 2) 0) ((1 - x % 2) * 4) 4
      (by omega) (by decide)
    rw [Nat.mul_comm (1 - x % 2), Nat.pow_mul] at hindex
    rw [pixel, hbyte _ (by omega), ok_bind, minus_of_le (by omega), ok_bind,
      fits_of_lt (by omega), ok_bind, Nat.mul_comm (1 - x % 2), shift_of_lt _ (by omega), ok_bind]
    refine (congrArg (look colors) hindex).trans ?_
    exact hentry _ (by decide) (Nat.mod_lt _ (by decide))
  · rw [pixel, hbyte _ (by omega), ok_bind]
    exact hentry _ (by decide) (UInt8.toNat_lt _)
  · rw [pixel, fits_of_lt (by omega), ok_bind, hword _ (by omega), ok_bind, expand_eq, ok_bind,
      expand_eq, ok_bind, expand_eq, ok_bind, Nat.shiftRight_eq_div_pow, Nat.shiftRight_eq_div_pow]
    rfl
  · rw [pixel, fits_of_lt (by omega), ok_bind]
    exact hcolor _ (by omega)
  · rw [pixel, fits_of_lt (by omega), ok_bind]
    · exact hcolor _ (by omega)
    all_goals decide

theorem fits_pixelAt (covers : Covers colors h.bits) (bits start x : Nat) :
    (pixelAt data colors bits start x).Fits := by
  unfold pixelAt
  split
  · exact fits_fiveBitColor _
  · exact fits_colorAt _ _
  · exact fits_colorAt _ _
  · exact covers.fits _

/-! ## Rows -/

/-- Where the pixels of a file start. -/
def pixelStart (h : Header) (data : Array UInt8) : Guarded Nat := do
  refuseIf (data.size < h.pixelOffset) (.invalidPixelOffset h.pixelOffset)
  .ok h.pixelOffset

theorem pixelStart_eq (h : Header) (data : Array UInt8) :
    pixelStart h data = lift (h.pixelStart data) := by
  rw [pixelStart, Header.pixelStart, refuseIf]
  by_cases hout : data.size < h.pixelOffset
  · rw [if_pos hout, decide_eq_true hout]
    rfl
  · rw [if_neg hout, decide_eq_false hout]
    rfl

theorem le_of_pixelStart {start : Nat} (hstart : h.pixelStart data = .ok start) :
    start ≤ data.size := by
  rw [Header.pixelStart] at hstart
  split at hstart
  · cases hstart
  next hin =>
    cases hstart
    exact Nat.not_lt.mp hin

/-- Makes a dot black if its colour is dark.  Coordinates are cut to 32 bits. -/
def dab (raster : Raster) (x y : Nat) (c : Color) : Guarded Raster := do
  if ← isDark c then raster.setBlack (x % 2 ^ 32) (y % 2 ^ 32) else .ok raster

/-- The stored row of an image row. -/
def storedRow (h : Header) (y : Nat) : Guarded Nat :=
  if h.topDown then .ok y else do minus (← minus h.height 1) y

theorem storedRow_eq {y : Nat} (hy : y < h.height) : storedRow h y = .ok (h.storedRow y) := by
  rw [storedRow, Header.storedRow, minus_of_le (by omega), ok_bind, minus_of_le (by omega)]
  split <;> rfl

/-- Draws a row of the image. -/
def row (h : Header) (data : Array UInt8) (colors : Array Color) (start stride y : Nat)
    (raster : Raster) : Guarded Raster := do
  let stored ← storedRow h y
  let first ← fits 64 (start + stored * stride)
  let last ← fits 64 (start + (stored + 1) * stride)
  let bytes ← part data first last
  (List.range h.width).foldlM (fun raster x => do
    let c ← pixel colors h.bits bytes x
    dab raster x y c) raster

/-- Draws the image of a file without run lengths. -/
def rows (h : Header) (data : Array UInt8) (colors : Array Color) (raster : Raster) :
    Guarded Raster := do
  let bits ← fits 64 (h.width * h.bits)
  let stride ← fits 64 ((bits + 31) / 32 * 4)
  let start ← pixelStart h data
  let stop ← fits 64 (start + stride * h.height)
  refuseIf (data.size < stop) .truncatedPixelData
  (List.range h.height).foldlM (fun raster y => row h data colors start stride y raster) raster

theorem size_lt_of_sized (sound : h.Sound profile data) {b : Bitmap} (hb : h.Sized b) :
    b.data.size < 2 ^ 64 := by
  have hpayload : 10 + rowBytes h.width * h.height ≤ 65535 := sound.payload_le
  rw [b.size_data, hb.1, hb.2]
  omega

theorem sized_setBlack {b : Bitmap} (hb : h.Sized b) (x y : Nat) : h.Sized (b.setBlack x y) :=
  ⟨(b.width_setBlack x y).trans hb.1, (b.height_setBlack x y).trans hb.2⟩

/-- A dot is drawn if its colour is dark. -/
theorem dab_eq (sound : h.Sound profile data) {b : Bitmap} (hb : h.Sized b) {x y : Nat}
    (hx : x < h.width) (hy : y < h.height) {black : Nat → Nat → Bool} {c : Color} (hc : c.Fits)
    (hblack : black x y = c.isDark) :
    dab b.raster x y c = .ok (b.setIf black (x, y)).raster ∧ h.Sized (b.setIf black (x, y)) := by
  obtain ⟨-, hwidth, hheight⟩ := limits_of_sound sound
  rw [dab, isDark_eq hc, ok_bind, Nat.mod_eq_of_lt (by omega), Nat.mod_eq_of_lt (by omega),
    Bitmap.setIf, hblack]
  cases c.isDark with
  | false => exact ⟨rfl, hb⟩
  | true => exact ⟨Raster.setBlack_eq b (size_lt_of_sized sound hb) x y, sized_setBlack hb x y⟩

/-- The black dots of a file without run lengths. -/
def plainDots (h : Header) (data : Array UInt8) (colors : Array Color) (start x y : Nat) : Bool :=
  (pixelAt data colors h.bits (start + h.storedRow y * h.rowStride) x).isDark

/-- **A ROW IS READ WITHIN THE FILE** if the file has room for all of them. -/
theorem row_eq (sound : h.Sound profile data) (covers : Covers colors h.bits)
    (size : data.size < 2 ^ 63) {start y : Nat} (room : start + h.rowStride * h.height ≤ data.size)
    (hy : y < h.height) {b : Bitmap} (hb : h.Sized b) :
    row h data colors start h.rowStride y b.raster
        = .ok (b.setRow h.width (plainDots h data colors start) y).raster
      ∧ h.Sized (b.setRow h.width (plainDots h data colors start) y) := by
  have hnext : (h.storedRow y + 1) * h.rowStride = h.storedRow y * h.rowStride + h.rowStride :=
    Nat.succ_mul _ _
  have hlast := Nat.mul_le_mul_right h.rowStride (Nat.succ_le_of_lt (h.storedRow_lt hy))
  rw [Nat.succ_mul, Nat.mul_comm h.height] at hlast
  rw [row, storedRow_eq hy, ok_bind, fits_of_lt (by omega), ok_bind, fits_of_lt (by omega), ok_bind,
    part_of_le (by omega) (by omega), ok_bind]
  refine foldlM_eq Bitmap.raster h.Sized ?_ hb
  intro b hb x hx
  rw [List.mem_range] at hx
  rw [hnext, ← Nat.add_assoc, pixel_eq covers sound.depth size (by omega) hx, ok_bind]
  exact dab_eq sound hb hx hy (fits_pixelAt covers _ _ _) rfl

/-- **AN IMAGE WITHOUT RUN LENGTHS IS READ WITHIN THE FILE**, and is the one that
    the file describes. -/
theorem rows_eq (sound : h.Sound profile data) (covers : Covers colors h.bits)
    (size : data.size < 2 ^ 63) :
    rows h data colors (Bitmap.blank h.width h.height).raster
      = lift ((h.plainImage data colors).map Bitmap.raster) := by
  obtain ⟨-, hwidth, hheight⟩ := limits_of_sound sound
  have hbits : h.width * h.bits ≤ 524200 * 32 := by
    have hdepth : ∀ bits ∈ depths, bits ≤ 32 := by decide
    exact Nat.mul_le_mul hwidth (hdepth _ sound.depth)
  have hstride : h.rowStride ≤ 2096804 := by
    rw [Header.rowStride]
    omega
  have hrows := Nat.mul_le_mul hstride hheight
  rw [rows, fits_of_lt (by omega), ok_bind]
  show (fits 64 h.rowStride >>= _) = _
  rw [fits_of_lt (by omega), ok_bind, pixelStart_eq, Header.plainImage]
  cases hstart : h.pixelStart data with
  | error fault => rfl
  | ok start =>
      have hle := le_of_pixelStart hstart
      rw [lift_ok, ok_bind, fits_of_lt (by omega), ok_bind]
      by_cases hshort : data.size < start + h.rowStride * h.height
      · rw [decide_eq_true hshort]
        show _ = lift (Except.map _ (if _ then _ else _))
        rw [if_pos hshort]
        rfl
      · rw [decide_eq_false hshort]
        show (List.range h.height).foldlM _ _ = lift (Except.map _ (if _ then _ else _))
        rw [if_neg hshort]
        have hdrawn := foldlM_eq Bitmap.raster h.Sized
          (f := fun raster y => row h data colors start h.rowStride y raster)
          (fun b hb y (hy : y ∈ List.range h.height) =>
            row_eq sound covers size (Nat.not_lt.mp hshort) (List.mem_range.mp hy) hb)
          (b := Bitmap.blank h.width h.height) ⟨rfl, rfl⟩
        rw [hdrawn.1, Bitmap.foldl_setRow]
        rfl

end Guarded

end ReceiptPrinter
