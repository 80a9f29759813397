import ReceiptPrinter.Proofs.Image.Bits
import ReceiptPrinter.Proofs.Image.Header

/-! # Pixels — the image of a BMP file without run lengths

    Where the colour of a pixel stands in a file is written down here from the
    file's bytes alone: `sourceColor?` finds the row, the pixel in the row and,
    where there is a palette, the entry it names.  It has a colour only if every
    byte that it looks at is in the file and every entry is in the palette.

    `bits_of_plain` says that a file that is accepted has a colour at each of its
    pixels, and that the image is black where that colour is dark.  All bounds
    come from one inequality on rows (`Header.lt_of_row`): the checks on the
    length of the file leave room for the last byte of the last pixel. -/

namespace ReceiptPrinter.Bmp

/-! ## Where a pixel stands -/

/-- The colour of three bytes, blue first, if the file has them. -/
def color? (data : Array UInt8) (offset : Nat) : Option Color := do
  let blue ← data[offset]?
  let green ← data[offset + 1]?
  let red ← data[offset + 2]?
  some ⟨red.toNat, green.toNat, blue.toNat⟩

/-- An entry of the palette, which has one for each number of so many bits and
    stands behind the two headers. -/
def paletteAt? (data : Array UInt8) (bits index : Nat) : Option Color :=
  if index < 1 <<< bits then color? data (14 + longAt data 14 + 4 * index) else none

/-- A part of five bits as one of eight. -/
def widened (part : Nat) : Nat :=
  part * 255 / 31

/-- The colour of two bytes, the low one first: five bits each of red, green and
    blue. -/
def fiveBits? (data : Array UInt8) (offset : Nat) : Option Color := do
  let low ← data[offset]?
  let high ← data[offset + 1]?
  let word := low.toNat + high.toNat <<< 8
  some ⟨widened (word >>> 10 &&& 31), widened (word >>> 5 &&& 31), widened (word &&& 31)⟩

/-- The colour of a pixel in the row that starts at `row`. -/
def storedColor? (data : Array UInt8) (bits row x : Nat) : Option Color :=
  match bits with
  | 1 => data[row + x / 8]?.bind fun byte =>
    paletteAt? data 1 (byte.toNat.testBit (7 - x % 8)).toNat
  | 4 => data[row + x / 2]?.bind fun byte =>
    paletteAt? data 4 (if x % 2 = 0 then byte.toNat >>> 4 else byte.toNat &&& 15)
  | 8 => data[row + x]?.bind fun byte => paletteAt? data 8 byte.toNat
  | 16 => fiveBits? data (row + 2 * x)
  | 24 => color? data (row + 3 * x)
  | 32 => color? data (row + 4 * x)
  | _ => none

/-- The bytes of a row, which fills words of 32 bits. -/
def strideOf (width bits : Nat) : Nat :=
  4 * ((width * bits + 31) / 32)

/-- Where a row of the image starts.  With a positive height the bottom row is
    stored first. -/
def rowOffset (data : Array UInt8) (y : Nat) : Nat :=
  let height := signedAt data 22
  let row := if height < 0 then y else height.natAbs - 1 - y
  longAt data 10 + row * strideOf (signedAt data 18).toNat (wordAt data 28)

/-- The colour of a pixel of the image. -/
def sourceColor? (data : Array UInt8) (x y : Nat) : Option Color :=
  storedColor? data (wordAt data 28) (rowOffset data y) x

/-! ## Bytes that are there -/

variable {data : Array UInt8}

theorem getElem?_of_lt (data : Array UInt8) {offset : Nat} (h : offset < data.size) :
    data[offset]? = some data[offset] ∧ byteAt data offset = data[offset].toNat := by
  have hget := Array.getElem?_eq_getElem h
  refine ⟨hget, ?_⟩
  rw [byteAt, Array.getD_eq_getD_getElem?, hget]
  rfl

theorem byteAt_lt (data : Array UInt8) (offset : Nat) : byteAt data offset < 256 :=
  (data.getD offset 0).toNat_lt

/-- The half of a byte that a pixel of four bits has, the high one first. -/
theorem half_eq (x : Nat) {byte : Nat} (hbyte : byte < 256) :
    (if x % 2 = 0 then byte >>> 4 else byte &&& 15) = byte / Nat.pow 16 (1 - x % 2) % 16 := by
  have hmask : byte &&& 15 = byte % 16 := Nat.and_two_pow_sub_one_eq_mod byte 4
  have hshift : byte >>> 4 = byte / 16 := Nat.shiftRight_eq_div_pow byte 4
  rw [hmask, hshift]
  split
  next heven =>
    rw [heven]
    show byte / 16 = byte / 16 % 16
    omega
  next hodd =>
    rw [show 1 - x % 2 = 0 by omega]
    show byte % 16 = byte / 1 % 16
    rw [Nat.div_one]

theorem color?_eq {offset : Nat} (h : offset + 3 ≤ data.size) :
    color? data offset = some (colorAt data offset) := by
  obtain ⟨hblue, hb⟩ := getElem?_of_lt data (show offset < data.size by omega)
  obtain ⟨hgreen, hg⟩ := getElem?_of_lt data (show offset + 1 < data.size by omega)
  obtain ⟨hred, hr⟩ := getElem?_of_lt data (show offset + 2 < data.size by omega)
  rw [color?, hblue, hgreen, hred, colorAt, hb, hg, hr]
  rfl

theorem fiveBits?_eq {offset : Nat} (h : offset + 2 ≤ data.size) :
    fiveBits? data offset = some (fiveBitColor (wordAt data offset)) := by
  obtain ⟨hlow, hl⟩ := getElem?_of_lt data (show offset < data.size by omega)
  obtain ⟨hhigh, hh⟩ := getElem?_of_lt data (show offset + 1 < data.size by omega)
  have hword : wordAt data offset = data[offset].toNat + data[offset + 1].toNat <<< 8 := by
    rw [wordAt, hl, hh, Nat.shiftLeft_eq, Nat.mul_comm]
  have hmask : ∀ n, n &&& 31 = n % 32 := fun n => Nat.and_two_pow_sub_one_eq_mod n 5
  simp only [fiveBits?, hlow, hhigh, Option.bind_eq_bind, Option.bind_some, ← hword, hmask,
    Nat.shiftRight_eq_div_pow]
  rfl

/-! ## Palettes -/

/-- A palette has a colour for each number of so many bits, as it stands in the
    file. -/
theorem paletteAt?_eq {h : Header} (hsize : h.size = longAt data 14) {palette : Array Color}
    (hpalette : h.palette data = .ok palette) (hbits : h.bits ≤ 8) {index : Nat}
    (hindex : index < 1 <<< h.bits) :
    index < palette.size ∧ paletteAt? data h.bits index = some (paletteColor palette index) := by
  have hcount : h.paletteSize = 1 <<< h.bits := by
    rw [Header.paletteSize, if_pos hbits, Nat.shiftLeft_eq, Nat.one_mul]
    rfl
  rw [Header.palette] at hpalette
  split at hpalette
  · cases hpalette
  next hfits =>
    cases hpalette
    have hsizes : index < h.paletteSize := by rwa [hcount]
    have hroom : h.paletteStart + 4 * h.paletteSize ≤ data.size := by
      rcases Nat.lt_or_ge data.size (h.paletteStart + 4 * h.paletteSize) with hlt | hge
      · exact absurd ⟨hlt, hbits⟩ hfits
      · exact hge
    refine ⟨by rwa [Array.size_ofFn], ?_⟩
    rw [paletteAt?, if_pos hindex, paletteColor, Array.getD_eq_getD_getElem?, Array.getElem?_ofFn,
      dif_pos hsizes, ← hsize]
    exact color?_eq (by show h.paletteStart + 4 * index + 3 ≤ _; omega)

/-! ## Rows -/

namespace Header

variable {h : Header} {profile : Profile}

/-- A byte of a row is in the file if the file has room for all rows. -/
theorem lt_of_row {start y offset : Nat} (hroom : start + h.rowStride * h.height ≤ data.size)
    (hy : y < h.height) (ho : offset < h.rowStride) :
    start + h.storedRow y * h.rowStride + offset < data.size := by
  have hrow : h.storedRow y < h.height := by
    rw [storedRow]
    split <;> omega
  have hlt := rowMajor_lt ho hrow
  omega

/-- Where a row starts, in the words of the file. -/
theorem Sound.rowOffset_eq (sound : h.Sound profile data) (y : Nat) :
    rowOffset data y = h.pixelOffset + h.storedRow y * h.rowStride := by
  rw [sound.fields, rowOffset, rowStride, storedRow, strideOf, Nat.mul_comm 4]
  show longAt data 10 + (if signedAt data 22 < 0 then y else _) * _
    = longAt data 10 + (if decide (signedAt data 22 < 0) = true then y else _) * _
  simp only [decide_eq_true_eq]
  rfl

/-- The colour of a pixel that is an entry of the palette, given how its number is
    read in the byte that holds it. -/
theorem indexed {palette : Array Color} (hsize : h.size = longAt data 14)
    (hpalette : h.palette data = .ok palette) (hbits : h.bits ≤ 8) {row offset x : Nat}
    (ho : offset < data.size) {f : Nat → Nat} (hf : ∀ byte < 256, f byte < 1 <<< h.bits)
    (hindex : indexAt data h.bits row x = f (byteAt data offset))
    (hstored : storedColor? data h.bits row x
      = data[offset]?.bind fun byte => paletteAt? data h.bits (f byte.toNat)) :
    indexAt data h.bits row x < palette.size
      ∧ storedColor? data h.bits row x
        = some (paletteColor palette (indexAt data h.bits row x)) := by
  obtain ⟨hget, hbyte⟩ := getElem?_of_lt data ho
  rw [hindex, hstored, hget, Option.bind_some, hbyte]
  exact paletteAt?_eq hsize hpalette hbits (hf _ data[offset].toNat_lt)

/-- **EVERY PIXEL HAS A COLOUR**: its bytes are in the file, the entry of the
    palette that they name is there, and the decoder takes that colour. -/
theorem Sound.sourceColor?_eq (sound : h.Sound profile data) {palette : Array Color}
    (hpalette : h.palette data = .ok palette)
    (hroom : h.pixelOffset + h.rowStride * h.height ≤ data.size) {x y : Nat} (hx : x < h.width)
    (hy : y < h.height) :
    (h.bits ≤ 8 → indexAt data h.bits (rowOffset data y) x < palette.size)
      ∧ sourceColor? data x y
        = some (pixelAt data palette h.bits (rowOffset data y) x) := by
  have hfield : wordAt data 28 = h.bits := by rw [sound.fields]; rfl
  have hsize : h.size = longAt data 14 := by rw [sound.fields]; rfl
  have hrow : ∀ offset, offset < h.rowStride → rowOffset data y + offset < data.size := by
    intro offset ho
    rw [sound.rowOffset_eq y]
    exact lt_of_row hroom hy ho
  rw [sourceColor?, hfield]
  generalize rowOffset data y = row at hrow ⊢
  rw [rowStride] at hrow
  have hdepth := sound.depth
  simp only [depths, List.mem_cons, List.not_mem_nil, or_false] at hdepth
  -- Pixels of less than a byte share one; the others begin on a byte of their own.
  rcases hdepth with hb | hb | hb | hb | hb | hb <;> rw [hb] at hrow
  · have hcolor := indexed hsize hpalette (by omega) (hrow (x / 8) (by omega)) (x := x)
      (f := fun byte => (byte.testBit (7 - x % 8)).toNat)
      (by rw [hb]; exact fun byte _ => Bool.toNat_lt _)
      (by rw [hb, Nat.toNat_testBit]; rfl) (by rw [hb]; rfl)
    rw [hb] at hcolor ⊢
    exact ⟨fun _ => hcolor.1, hcolor.2⟩
  · have hcolor := indexed hsize hpalette (by omega) (hrow (x / 2) (by omega)) (x := x)
      (f := fun byte => if x % 2 = 0 then byte >>> 4 else byte &&& 15)
      (by rw [hb]; exact fun byte hbyte => half_eq x hbyte ▸ Nat.mod_lt _ (by decide))
      (by rw [hb, half_eq x (byteAt_lt _ _)]; rfl) (by rw [hb]; rfl)
    rw [hb] at hcolor ⊢
    exact ⟨fun _ => hcolor.1, hcolor.2⟩
  · have hcolor := indexed hsize hpalette (by omega) (hrow x (by omega)) (x := x) (f := id)
      (by rw [hb]; exact fun byte hbyte => hbyte) (by rw [hb]; rfl) (by rw [hb]; rfl)
    rw [hb] at hcolor ⊢
    exact ⟨fun _ => hcolor.1, hcolor.2⟩
  · have h0 := hrow (2 * x + 1) (by omega)
    rw [hb]
    exact ⟨fun hle => absurd hle (by decide), fiveBits?_eq (by omega)⟩
  · have h0 := hrow (3 * x + 2) (by omega)
    rw [hb]
    exact ⟨fun hle => absurd hle (by decide), color?_eq (by omega)⟩
  · have h0 := hrow (4 * x + 2) (by omega)
    rw [hb]
    exact ⟨fun hle => absurd hle (by decide), color?_eq (by omega)⟩

end Header

/-! ## The image -/

/-- An image without run lengths is made only if the file has room for all rows,
    and its bits are those of dark pixels. -/
theorem Header.bit_of_plainImage {h : Header} {palette : Array Color} {image : Bitmap}
    (himage : h.plainImage data palette = .ok image) :
    h.pixelOffset + h.rowStride * h.height ≤ data.size
      ∧ image.width = h.width ∧ image.height = h.height
      ∧ ∀ x y, x < 8 * rowBytes h.width → y < h.height →
        image.bit x y = (decide (x < h.width)
          && (pixelAt data palette h.bits (h.pixelOffset + h.storedRow y * h.rowStride) x).isDark)
    := by
  rw [plainImage] at himage
  obtain ⟨start, hstart, himage⟩ := bind_eq_ok himage
  obtain rfl := Header.start_of_pixelStart hstart
  split at himage
  · cases himage
  next hroom =>
    cases himage
    exact ⟨Nat.not_lt.mp hroom, rfl, rfl, fun x y hx hy => Bitmap.bit_ofDots _ hx hy⟩

/-- **AN IMAGE WITHOUT RUN LENGTHS IS EXACT.**  A file that is accepted has all of
    its header and gives an image of the size in it, each of its pixels has a colour in the file,
    and the image is black just where the luminance of that colour is under 128.
    The bits of a row past the width are clear.  All numbers that are looked up in
    the palette are in it. -/
theorem bits_of_plain {profile : Profile} {image : Bitmap}
    (accepted : transcodeFor profile data = .ok image) (plain : longAt data 30 = 0) :
    54 ≤ data.size
      ∧ (image.width : Int) = signedAt data 18
      ∧ image.height = (signedAt data 22).natAbs
      ∧ (∀ x y, x < image.width → y < image.height → ∃ c, sourceColor? data x y = some c
        ∧ (image.bit x y = true ↔ (30 * c.red + 59 * c.green + 11 * c.blue) / 100 < 128))
      ∧ (∀ x y, image.width ≤ x → x < 8 * rowBytes image.width → y < image.height →
        image.bit x y = false)
      ∧ ∃ palette, (Header.fields data).palette data = .ok palette
        ∧ ∀ x y, x < image.width → y < image.height → wordAt data 28 ≤ 8 →
          indexAt data (wordAt data 28) (rowOffset data y) x < palette.size := by
  rw [transcodeFor] at accepted
  obtain ⟨h, hread, accepted⟩ := bind_eq_ok accepted
  obtain ⟨palette, hpalette, accepted⟩ := bind_eq_ok accepted
  have sound := Header.sound_of_read hread
  rw [sound.runLength_of_plain plain] at accepted
  obtain ⟨hroom, hwidth, hheight, hbit⟩ := Header.bit_of_plainImage accepted
  have hbits : wordAt data 28 = h.bits := by rw [sound.fields]; rfl
  rw [hwidth, hheight, hbits]
  refine ⟨sound.size, sound.width_eq, sound.height_eq, ?_, ?_, palette, ?_, ?_⟩
  · intro x y hx hy
    refine ⟨_, (sound.sourceColor?_eq hpalette hroom hx hy).2, ?_⟩
    rw [hbit x y (Nat.lt_of_lt_of_le hx (Bitmap.le_rowBytes h.width)) hy, decide_eq_true hx,
      Bool.true_and, ← sound.rowOffset_eq y]
    exact decide_eq_true_iff
  · intro x y hx hpad hy
    rw [hbit x y hpad hy, decide_eq_false (Nat.not_lt.mpr hx), Bool.false_and]
  · rw [← sound.fields]
    exact hpalette
  · intro x y hx hy
    exact (sound.sourceColor?_eq hpalette hroom hx hy).1

/-- A file of ten by two pixels of one bit, with a palette of white and black and
    the bottom row first. -/
def tenByTwo : Array UInt8 := #[
  0x42, 0x4D, 0x46, 0, 0, 0, 0, 0, 0, 0, 62, 0, 0, 0,
  40, 0, 0, 0, 10, 0, 0, 0, 2, 0, 0, 0, 1, 0, 1, 0, 0, 0, 0, 0, 8, 0, 0, 0, 0, 0, 0, 0, 0, 0, 0, 0,
  0, 0, 0, 0, 0, 0, 0, 0,
  0xFF, 0xFF, 0xFF, 0, 0x00, 0x00, 0x00, 0,
  0x00, 0x40, 0, 0, 0x80, 0x3F, 0, 0]

/-- Its image: the bits that the file has past the width are gone. -/
def tenByTwoImage : Bitmap := ⟨10, 2, #[0x80, 0x00, 0x00, 0x40], rfl⟩

/-- The last pixel of the bottom row is black in the file and in the image. -/
theorem bits_of_tenByTwo :
    transcodeFor .tmT20 tenByTwo = .ok tenByTwoImage ∧ longAt tenByTwo 30 = 0
      ∧ sourceColor? tenByTwo 9 1 = some .black ∧ tenByTwoImage.bit 9 1 = true
      ∧ tenByTwoImage.bit 12 0 = false := by
  have accepted : transcodeFor .tmT20 tenByTwo = .ok tenByTwoImage := rfl
  have hcolor : sourceColor? tenByTwo 9 1 = some .black := rfl
  obtain ⟨-, -, -, hbit, hpad, -⟩ := bits_of_plain accepted rfl
  obtain ⟨c, hc, hdark⟩ := hbit 9 1 (by decide) (by decide)
  obtain rfl := Option.some.inj (hcolor.symm.trans hc)
  exact ⟨accepted, rfl, hcolor, hdark.mpr (by decide),
    hpad 12 0 (by decide) (by decide) (by decide)⟩

end ReceiptPrinter.Bmp
