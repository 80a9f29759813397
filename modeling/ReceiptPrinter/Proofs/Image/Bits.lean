import ReceiptPrinter.Image.Bitmap

/-! # Bits — a bitmap by its coordinates

    A bitmap is bytes, eight dots in each.  `Bitmap.bit` reads one bit of a row,
    the highest bit of a byte first, those past the width included; two bitmaps
    of one size with the same bits are the same (`Bitmap.eq_of_bits`).

    A bitmap is made in two ways: byte by byte from a predicate
    (`Bitmap.ofDots`), or dot by dot (`Bitmap.setBlack`).  Both are settled by
    their bits, and `Bitmap.ofDots_eq_drawn` says that they are one.  What is drawn
    dot by dot is known by the set of its dots (`Bitmap.bits_of_drawing`): neither
    their order nor repeats nor dots outside the image leave a trace. -/

namespace ReceiptPrinter

/-! ## Places in rows -/

/-- In rows of one width a place is within all the rows. -/
theorem rowMajor_lt {width height x y : Nat} (hx : x < width) (hy : y < height) :
    y * width + x < width * height := by
  have hrow := Nat.mul_le_mul_right width (Nat.succ_le_of_lt hy)
  rw [Nat.succ_mul, Nat.mul_comm height] at hrow
  omega

/-- In rows of one width places are the same when rows and columns are. -/
theorem rowMajor_eq_iff {width x y row other : Nat} (hx : x < width) (hy : y < width) :
    row * width + x = other * width + y ↔ row = other ∧ x = y := by
  constructor
  · intro h
    rcases Nat.lt_trichotomy row other with hlt | heq | hgt
    · have := Nat.mul_le_mul_right width (Nat.succ_le_of_lt hlt)
      rw [Nat.succ_mul] at this
      omega
    · subst heq
      exact ⟨rfl, Nat.add_left_cancel h⟩
    · have := Nat.mul_le_mul_right width (Nat.succ_le_of_lt hgt)
      rw [Nat.succ_mul] at this
      omega
  · rintro ⟨rfl, rfl⟩
    rfl

/-! ## Bits of a byte -/

/-- The byte of a dot has the dot's bit and no other. -/
theorem testBit_dotBit (x : Nat) {j : Nat} (hj : j < 8) :
    (dotBit x).toNat.testBit j = decide (j = 7 - x % 8) := by
  have key : ∀ k < 8, ∀ j < 8,
      (0x80 >>> UInt8.ofNat k : UInt8).toNat.testBit j = decide (j = 7 - k) := by decide
  exact key (x % 8) (Nat.mod_lt x (by decide)) j hj

theorem testBit_or_dotBit (byte : UInt8) (x : Nat) {j : Nat} (hj : j < 8) :
    (byte ||| dotBit x).toNat.testBit j = (byte.toNat.testBit j || decide (j = 7 - x % 8)) := by
  rw [UInt8.toNat_or, Nat.testBit_or, testBit_dotBit x hj]

/-- Bytes with the same bits are the same. -/
theorem byte_eq_of_bits {a b : UInt8}
    (h : ∀ k < 8, a.toNat.testBit (7 - k) = b.toNat.testBit (7 - k)) : a = b := by
  apply UInt8.toNat_inj.mp
  apply Nat.eq_of_testBit_eq
  intro j
  by_cases hj : j < 8
  · have hk := h (7 - j) (by omega)
    rwa [show 7 - (7 - j) = j by omega] at hk
  · have hhigh : ∀ c : UInt8, c.toNat.testBit j = false := by
      intro c
      refine Nat.testBit_lt_two_pow (Nat.lt_of_lt_of_le c.toNat_lt ?_)
      exact Nat.pow_le_pow_right (by decide) (Nat.not_lt.mp hj)
    rw [hhigh, hhigh]

namespace Bitmap

/-- The byte of eight dots has the bits that are asked for. -/
theorem testBit_packByte (black : Nat → Bool) {k : Nat} (hk : k < 8) :
    (packByte black).toNat.testBit (7 - k) = black k := by
  have key : ∀ n ≤ 8, ((List.range n).foldl
      (fun byte k => if black k then byte ||| dotBit k else byte) (0 : UInt8)).toNat.testBit (7 - k)
        = (decide (k < n) && black k) := by
    intro n hn
    induction n with
    | zero => exact Nat.zero_testBit _
    | succ n ih =>
        have ih := ih (Nat.le_of_succ_le hn)
        have hmod : n % 8 = n := Nat.mod_eq_of_lt hn
        rw [List.range_succ, List.foldl_append, List.foldl_cons, List.foldl_nil]
        by_cases hkn : k = n
        · subst hkn
          rw [decide_eq_false (Nat.lt_irrefl k), Bool.false_and] at ih
          rw [decide_eq_true (Nat.lt_succ_self k), Bool.true_and]
          cases hb : black k with
          | false => rw [if_neg Bool.false_ne_true, ih]
          | true =>
              rw [if_pos rfl, testBit_or_dotBit _ _ (by omega), hmod, decide_eq_true rfl,
                Bool.or_true]
        · have hlt : (k < n + 1) = (k < n) := propext ⟨fun h => by omega, fun h => by omega⟩
          have hne : ¬ 7 - k = 7 - n % 8 := by omega
          simp only [hlt]
          rw [← ih]
          split
          · rw [testBit_or_dotBit _ _ (by omega), decide_eq_false hne, Bool.or_false]
          · rfl
  rw [packByte, key 8 (Nat.le_refl 8), decide_eq_true hk, Bool.true_and]

/-! ## Bits of a bitmap -/

/-- The bit at a place of a row, the leftmost first.  Rows have bits past the width. -/
def bit (b : Bitmap) (x y : Nat) : Bool :=
  (b.data.getD (b.place x y) 0).toNat.testBit (7 - x % 8)

variable {b : Bitmap} {x y : Nat}

/-- The dots of a row fit into its bytes. -/
theorem le_rowBytes (width : Nat) : width ≤ 8 * rowBytes width := by
  rw [rowBytes]
  omega

theorem place_lt (hx : x < 8 * b.stride) (hy : y < b.height) : b.place x y < b.data.size := by
  rw [b.size_data]
  exact rowMajor_lt (by show x / 8 < b.stride; omega) hy

theorem place_eq_iff {other row : Nat} (hx : x < 8 * b.stride) (ho : other < 8 * b.stride) :
    b.place x y = b.place other row ↔ y = row ∧ x / 8 = other / 8 :=
  rowMajor_eq_iff (by omega) (by omega)

/-- **A BITMAP IS ITS SIZE AND ITS BITS.** -/
theorem eq_of_bits {a b : Bitmap} (hwidth : a.width = b.width) (hheight : a.height = b.height)
    (hbits : ∀ x y, x < 8 * rowBytes b.width → y < b.height → a.bit x y = b.bit x y) : a = b := by
  obtain ⟨width, height, data, hsize⟩ := a
  obtain ⟨width', height', other, hsize'⟩ := b
  cases hwidth
  cases hheight
  have hdata : data = other := by
    apply Array.ext (hsize.trans hsize'.symm)
    intro i hi ho
    have hpos : 0 < rowBytes width := Nat.pos_of_ne_zero fun h => by simp [hsize, h] at hi
    apply byte_eq_of_bits
    intro k hk
    -- The byte is found again from its first dot.
    have hy : i / rowBytes width < height := by
      rw [hsize] at hi
      exact Nat.div_lt_of_lt_mul hi
    have hmod := Nat.mod_lt i hpos
    have hb := hbits (i % rowBytes width * 8 + k) (i / rowBytes width)
      (by show _ < 8 * rowBytes width; omega) hy
    have hplace : i / rowBytes width * rowBytes width + (i % rowBytes width * 8 + k) / 8 = i := by
      rw [show (i % rowBytes width * 8 + k) / 8 = i % rowBytes width by omega]
      exact Nat.div_add_mod' i _
    simp only [bit, place, stride, hplace] at hb
    rw [show (i % rowBytes width * 8 + k) % 8 = k by omega] at hb
    rwa [Array.getD_eq_getD_getElem?, Array.getD_eq_getD_getElem?, Array.getElem?_eq_getElem hi,
      Array.getElem?_eq_getElem ho] at hb
  cases hdata
  rfl

/-! ## Images of predicates -/

/-- The bits of an image are the dots that were picked, and clear past the width. -/
theorem bit_ofDots {width height : Nat} (black : Nat → Nat → Bool)
    (hx : x < 8 * rowBytes width) (hy : y < height) :
    (ofDots width height black).bit x y = (decide (x < width) && black x y) := by
  have hbyte : x / 8 < rowBytes width := by omega
  have hplace := rowMajor_lt hbyte hy
  have hdiv : (y * rowBytes width + x / 8) / rowBytes width = y := by
    rw [Nat.mul_comm, Nat.mul_add_div (Nat.zero_lt_of_lt hbyte), Nat.div_eq_of_lt hbyte,
      Nat.add_zero]
  have hmod : (y * rowBytes width + x / 8) % rowBytes width = x / 8 := by
    rw [Nat.mul_comm, Nat.mul_add_mod, Nat.mod_eq_of_lt hbyte]
  have hdata : (ofDots width height black).data.getD (y * rowBytes width + x / 8) 0
      = packByte fun k => decide (x / 8 * 8 + k < width) && black (x / 8 * 8 + k) y := by
    rw [ofDots, Array.getD_eq_getD_getElem?, Array.getElem?_ofFn, dif_pos hplace]
    simp only [hdiv, hmod, Option.getD_some]
  show ((ofDots width height black).data.getD (y * rowBytes width + x / 8) 0).toNat.testBit _ = _
  rw [hdata, testBit_packByte _ (Nat.mod_lt x (by decide)), Nat.div_add_mod' x 8]

/-! ## Images drawn dot by dot -/

theorem bit_blank (width height x y : Nat) : (blank width height).bit x y = false := by
  have hzero : (blank width height).data.getD ((blank width height).place x y) 0 = 0 := by
    rw [Array.getD_eq_getD_getElem?]
    show (Array.replicate (rowBytes width * height) (0 : UInt8))[_]?.getD 0 = 0
    rw [Array.getElem?_replicate]
    split <;> rfl
  rw [bit, hzero]
  exact Nat.zero_testBit _

@[simp] theorem width_setBlack (b : Bitmap) (x y : Nat) : (b.setBlack x y).width = b.width := by
  rw [setBlack]
  split <;> rfl

@[simp] theorem height_setBlack (b : Bitmap) (x y : Nat) :
    (b.setBlack x y).height = b.height := by
  rw [setBlack]
  split <;> rfl

/-- Making a dot black sets its bit, if it is in the image, and no other. -/
theorem bit_setBlack (b : Bitmap) (x y : Nat) {column row : Nat}
    (hcolumn : column < 8 * rowBytes b.width) (hrow : row < b.height) :
    (b.setBlack x y).bit column row
      = (b.bit column row || decide (x < b.width ∧ y < b.height ∧ column = x ∧ row = y)) := by
  rw [setBlack]
  by_cases hin : x < b.width ∧ y < b.height
  · rw [if_pos hin]
    have hx : x < 8 * b.stride := Nat.lt_of_lt_of_le hin.1 (le_rowBytes b.width)
    have hplace := place_lt (b := b) (x := column) hcolumn hrow
    show ((b.data.modify (b.place x y) (· ||| dotBit x)).getD (b.place column row) 0).toNat.testBit
      (7 - column % 8) = _
    rw [Array.getD_eq_getD_getElem?, Array.getElem?_modify, bit, Array.getD_eq_getD_getElem?,
      Array.getElem?_eq_getElem hplace]
    by_cases hsame : b.place x y = b.place column row
    · obtain ⟨rfl, hdiv⟩ := (place_eq_iff hx hcolumn).mp hsame
      have hiff : (7 - column % 8 = 7 - x % 8)
          ↔ (x < b.width ∧ y < b.height ∧ column = x ∧ y = y) :=
        ⟨fun h => ⟨hin.1, hin.2, by omega, rfl⟩, fun h => by rw [h.2.2.1]⟩
      rw [if_pos hsame]
      show (b.data[b.place column y] ||| dotBit x).toNat.testBit _ = _
      rw [testBit_or_dotBit _ _ (by omega), decide_eq_decide.mpr hiff]
      rfl
    · have hne : ¬ (x < b.width ∧ y < b.height ∧ column = x ∧ row = y) := by
        rintro ⟨-, -, rfl, rfl⟩
        exact hsame rfl
      rw [if_neg hsame, decide_eq_false hne, Bool.or_false]
  · have hne : ¬ (x < b.width ∧ y < b.height ∧ column = x ∧ row = y) :=
      fun h => hin ⟨h.1, h.2.1⟩
    rw [if_neg hin, decide_eq_false hne, Bool.or_false]

/-- Makes dots black one after the other. -/
def draw (b : Bitmap) (dots : List (Nat × Nat)) : Bitmap :=
  dots.foldl (fun b dot => b.setBlack dot.1 dot.2) b

@[simp] theorem width_draw (b : Bitmap) (dots : List (Nat × Nat)) :
    (b.draw dots).width = b.width := by
  induction dots generalizing b with
  | nil => rfl
  | cons dot rest ih => exact (ih (b.setBlack dot.1 dot.2)).trans (b.width_setBlack _ _)

@[simp] theorem height_draw (b : Bitmap) (dots : List (Nat × Nat)) :
    (b.draw dots).height = b.height := by
  induction dots generalizing b with
  | nil => rfl
  | cons dot rest ih => exact (ih (b.setBlack dot.1 dot.2)).trans (b.height_setBlack _ _)

/-- The bits of an image after dots were drawn. -/
theorem bit_draw (b : Bitmap) (dots : List (Nat × Nat)) {column row : Nat}
    (hcolumn : column < 8 * rowBytes b.width) (hrow : row < b.height) :
    (b.draw dots).bit column row
      = (b.bit column row || decide (column < b.width ∧ (column, row) ∈ dots)) := by
  induction dots generalizing b with
  | nil => simp [draw]
  | cons dot rest ih =>
      obtain ⟨x, y⟩ := dot
      show ((b.setBlack x y).draw rest).bit column row = _
      rw [ih (b.setBlack x y) (by rwa [width_setBlack]) (by rwa [height_setBlack]),
        bit_setBlack b x y hcolumn hrow, width_setBlack, Bool.or_assoc, ← Bool.decide_or]
      refine congrArg (b.bit column row || ·) (decide_eq_decide.mpr ?_)
      rw [List.mem_cons, Prod.mk.injEq]
      constructor
      · rintro (⟨hx, -, rfl, rfl⟩ | ⟨hin, hmem⟩)
        · exact ⟨hx, .inl ⟨rfl, rfl⟩⟩
        · exact ⟨hin, .inr hmem⟩
      · rintro ⟨hin, ⟨rfl, rfl⟩ | hmem⟩
        · exact .inl ⟨hin, hrow, rfl, rfl⟩
        · exact .inr ⟨hin, hmem⟩

/-- The dots of an image row by row, from left to right. -/
def pixels (width height : Nat) : List (Nat × Nat) :=
  (List.range height).flatMap fun y => (List.range width).map fun x => (x, y)

theorem mem_pixels {width height : Nat} {dot : Nat × Nat} :
    dot ∈ pixels width height ↔ dot.1 < width ∧ dot.2 < height := by
  obtain ⟨x, y⟩ := dot
  constructor
  · intro h
    obtain ⟨row, hrow, h⟩ := List.mem_flatMap.mp h
    obtain ⟨column, hcolumn, h⟩ := List.mem_map.mp h
    cases h
    exact ⟨List.mem_range.mp hcolumn, List.mem_range.mp hrow⟩
  · rintro ⟨hx, hy⟩
    exact List.mem_flatMap.mpr ⟨y, List.mem_range.mpr hy,
      List.mem_map.mpr ⟨x, List.mem_range.mpr hx, rfl⟩⟩

/-- **DRAWN DOT BY DOT OR PACKED BYTE BY BYTE**, an image is the same. -/
theorem ofDots_eq_drawn (width height : Nat) (black : Nat → Nat → Bool) :
    ofDots width height black
      = (blank width height).draw ((pixels width height).filter fun dot => black dot.1 dot.2) := by
  refine eq_of_bits ?_ ?_ ?_
  · rw [width_draw]
    rfl
  · rw [height_draw]
    rfl
  · intro x y hx hy
    rw [width_draw] at hx
    rw [height_draw] at hy
    have hy : y < height := hy
    rw [bit_draw _ _ hx hy, bit_blank, Bool.false_or]
    refine (bit_ofDots black hx hy).trans ?_
    show (decide (x < width) && black x y) = decide (x < width ∧ _)
    by_cases hxw : x < width
    · simp [mem_pixels, hxw, hy]
    · simp [hxw]

/-! ## Drawings -/

/-- The image of a size that is drawn by making dots black one after the other. -/
def drawing (width height : Nat) (dots : List (Nat × Nat)) : Bitmap :=
  (blank width height).draw dots

@[simp] theorem width_drawing (width height : Nat) (dots : List (Nat × Nat)) :
    (drawing width height dots).width = width :=
  width_draw ..

@[simp] theorem height_drawing (width height : Nat) (dots : List (Nat × Nat)) :
    (drawing width height dots).height = height :=
  height_draw ..

theorem bit_drawing {width height : Nat} (dots : List (Nat × Nat))
    (hx : x < 8 * rowBytes width) (hy : y < height) :
    (drawing width height dots).bit x y = decide (x < width ∧ (x, y) ∈ dots) := by
  rw [drawing, bit_draw _ dots hx hy, bit_blank, Bool.false_or]
  rfl

/-- A bit is found in the byte of its row and column. -/
theorem exists_byte (b : Bitmap) (hx : x < 8 * rowBytes b.width) (hy : y < b.height) :
    ∃ byte, b.data[y * rowBytes b.width + x / 8]? = some byte
      ∧ byte.toNat.testBit (7 - x % 8) = b.bit x y := by
  have hplace := place_lt (b := b) hx hy
  refine ⟨b.data[b.place x y], Array.getElem?_eq_getElem hplace, ?_⟩
  rw [bit, Array.getD_eq_getD_getElem?, Array.getElem?_eq_getElem hplace, Option.getD_some]

/-- Drawings of one size are the same just if they have the same dots in the image. -/
theorem drawing_eq_iff {width height : Nat} {dots others : List (Nat × Nat)} :
    drawing width height others = drawing width height dots
      ↔ ∀ x < width, ∀ y < height, ((x, y) ∈ others ↔ (x, y) ∈ dots) := by
  constructor
  · intro hsame x hx y hy
    have hbits := congrArg (fun b => Bitmap.bit b x y) hsame
    have hrow := Nat.lt_of_lt_of_le hx (le_rowBytes width)
    simpa only [bit_drawing _ hrow hy, hx, true_and, decide_eq_decide] using hbits
  · intro hdots
    refine eq_of_bits (by simp) (by simp) ?_
    intro x y hx hy
    rw [width_drawing] at hx
    rw [height_drawing] at hy
    rw [bit_drawing others hx hy, bit_drawing dots hx hy, decide_eq_decide]
    exact and_congr_right fun hin => hdots x hin y hy

/-- **A DRAWING IS THE SET OF ITS DOTS.**  However dots are drawn, in the image or not,
    the data is as long as the rows take; each of its bits, the highest of a byte first,
    is set just if it is a dot in the image that was drawn, so those past the width are
    clear.  Two drawings of one size are the same if the dots in the image are, and
    only then. -/
theorem bits_of_drawing (width height : Nat) (dots : List (Nat × Nat)) :
    (drawing width height dots).data.size = (width + 7) / 8 * height
      ∧ (∀ x y, x < 8 * ((width + 7) / 8) → y < height →
          ∃ byte, (drawing width height dots).data[y * ((width + 7) / 8) + x / 8]? = some byte
            ∧ byte.toNat.testBit (7 - x % 8) = decide (x < width ∧ (x, y) ∈ dots))
      ∧ ∀ others, drawing width height others = drawing width height dots
          ↔ ∀ x < width, ∀ y < height, ((x, y) ∈ others ↔ (x, y) ∈ dots) := by
  have hrow : (width + 7) / 8 = rowBytes width := rfl
  rw [hrow]
  refine ⟨?_, ?_, fun others => drawing_eq_iff⟩
  · rw [(drawing width height dots).size_data, width_drawing, height_drawing]
  · intro x y hx hy
    obtain ⟨byte, hbyte, hbit⟩ := exists_byte (drawing width height dots) (x := x) (y := y)
      (by rwa [width_drawing]) (by rwa [height_drawing])
    rw [width_drawing] at hbyte
    rw [bit_drawing dots hx hy] at hbit
    exact ⟨byte, hbyte, hbit⟩

end Bitmap

end ReceiptPrinter
