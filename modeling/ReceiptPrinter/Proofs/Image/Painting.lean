import ReceiptPrinter.Image.Bmp
import ReceiptPrinter.Proofs.Image.Bits

/-! # Painting — what run-length data mean

    The directives of run-length data describe a picture, and the description
    knows neither bytes nor edges.  A `Plane` goes on without end in all
    directions; its cursor starts on the row that is stored first, every pixel of
    a directive is painted, and the image is the part of the plane that shows.

    The decoder is of another make.  It reads bytes, counts rows in the order in
    which they are stored, drops what is outside the image, and stops for good
    once its cursor has left the last row.  `Bmp.Header.indices_of_directives`
    says that it finds the same picture, so what it drops and what it never reads
    cannot be seen. -/

namespace ReceiptPrinter

/-! ## Directives as bytes -/

namespace RunLength

/-- An index that the encoding has room for. -/
def Fits : RunLength → UInt8 → Prop
  | .rle8, _ => True
  | .rle4, index => index < 16

instance : ∀ (e : RunLength) (index : UInt8), Decidable (e.Fits index)
  | .rle8, _ => inferInstanceAs (Decidable True)
  | .rle4, index => inferInstanceAs (Decidable (index < 16))

/-- Indices of half a byte in bytes, the first of two in the high half.  A filler
    takes the half that is left over. -/
def packHalves (filler : UInt8) : List UInt8 → Bytes
  | [] => []
  | [last] => [16 * last + filler % 16]
  | first :: second :: rest => (16 * first + second) :: packHalves filler rest

/-- Indices in bytes. -/
def pack (e : RunLength) (filler : UInt8) (indices : List UInt8) : Bytes :=
  match e with
  | .rle8 => indices
  | .rle4 => packHalves filler indices

theorem length_packHalves (filler : UInt8) (indices : List UInt8) :
    (packHalves filler indices).length = (indices.length + 1) / 2 := by
  induction indices using packHalves.induct with
  | case1 => rfl
  | case2 last => simp [packHalves]
  | case3 first second rest ih =>
      show (packHalves filler rest).length + 1 = _
      rw [ih, List.length_cons, List.length_cons]
      omega

theorem length_pack (e : RunLength) (filler : UInt8) (indices : List UInt8) :
    (e.pack filler indices).length = e.literalBytes indices.length := by
  cases e with
  | rle8 => rfl
  | rle4 => exact length_packHalves filler indices

theorem high_half {high low : UInt8} (hh : high < 16) (hl : low < 16) :
    (16 * high + low) / 16 = high := by
  rw [UInt8.lt_iff_toNat_lt] at hh hl
  apply UInt8.toNat_inj.mp
  simp only [UInt8.toNat_div, UInt8.toNat_add, UInt8.toNat_mul, UInt8.reduceToNat] at *
  omega

theorem low_half (high : UInt8) {low : UInt8} (hl : low < 16) :
    (16 * high + low) % 16 = low := by
  rw [UInt8.lt_iff_toNat_lt] at hl
  apply UInt8.toNat_inj.mp
  simp only [UInt8.toNat_mod, UInt8.toNat_add, UInt8.toNat_mul, UInt8.reduceToNat] at *
  omega

/-- The halves of packed bytes are the indices, and perhaps a filler. -/
theorem take_halves (filler : UInt8) {indices : List UInt8}
    (h : ∀ index ∈ indices, RunLength.rle4.Fits index) :
    ((packHalves filler indices).flatMap (indicesOf .rle4)).take indices.length = indices := by
  induction indices using packHalves.induct with
  | case1 => rfl
  | case2 last =>
      have hf : filler % 16 < 16 := UInt8.mod_lt _ (by decide)
      show [(16 * last + filler % 16) / 16] = [last]
      rw [high_half (h last List.mem_cons_self) hf]
  | case3 first second rest ih =>
      rw [List.forall_mem_cons, List.forall_mem_cons] at h
      show (16 * first + second) / 16 :: (16 * first + second) % 16
        :: ((packHalves filler rest).flatMap (indicesOf .rle4)).take rest.length = _
      rw [high_half h.1 h.2.1, low_half first h.2.1, ih h.2.2]

/-- Packed indices are read back. -/
theorem take_indicesOf_pack {e : RunLength} (filler : UInt8) {indices : List UInt8}
    (h : ∀ index ∈ indices, e.Fits index) :
    ((e.pack filler indices).flatMap e.indicesOf).take indices.length = indices := by
  cases e with
  | rle8 =>
      show (indices.flatMap fun index => [index]).take indices.length = indices
      rw [List.flatMap_singleton', List.take_length]
  | rle4 => exact take_halves filler h

end RunLength

namespace Directive

/-- A directive that can be stored: a run is not empty, and literals are at least
    three, since their number stands where smaller ones mean something else. -/
def Storable (e : RunLength) : Directive → Prop
  | .run count _ => count ≠ 0
  | .literal indices =>
    3 ≤ indices.length ∧ indices.length ≤ 255 ∧ ∀ index ∈ indices, e.Fits index
  | _ => True

instance (e : RunLength) : ∀ d : Directive, Decidable (d.Storable e)
  | .run count _ => inferInstanceAs (Decidable (count ≠ 0))
  | .literal indices => inferInstanceAs
      (Decidable (3 ≤ indices.length ∧ indices.length ≤ 255 ∧ ∀ index ∈ indices, e.Fits index))
  | .delta .. | .endOfLine | .endOfImage => inferInstanceAs (Decidable True)

/-- A directive as it is stored.  Literals fill words of two bytes. -/
def bytes (e : RunLength) (filler : UInt8) : Directive → Bytes
  | .run count value => [count, value]
  | .literal indices =>
    let packed := e.pack filler indices
    [0, UInt8.ofNat indices.length] ++ packed ++ List.replicate (packed.length % 2) filler
  | .delta columns rows => [0, 2, columns, rows]
  | .endOfLine => [0, 0]
  | .endOfImage => [0, 1]

/-- What literals are read from is their number, which is no code, and bytes. -/
theorem read?_literal {e : RunLength} {count : UInt8} (h : 3 ≤ count.toNat) (rest : Bytes) :
    read? e (0 :: count :: rest)
      = some (.literal (((rest.take (e.literalBytes count.toNat)).flatMap e.indicesOf).take
            count.toNat),
          rest.drop (e.literalBytes count.toNat + e.literalBytes count.toNat % 2)) := by
  have h0 : count ≠ 0 := by rintro rfl; exact absurd h (by decide)
  have h1 : count ≠ 1 := by rintro rfl; exact absurd h (by decide)
  have h2 : count ≠ 2 := by rintro rfl; exact absurd h (by decide)
  rw [read?.eq_def]
  split
  case h_1 k =>
    cases k
    exact absurd rfl h0
  case h_2 k =>
    cases k
    exact absurd rfl h1
  case h_3 k | h_4 k | h_5 k =>
    cases k
    exact absurd rfl h2
  case h_6 k =>
    cases k
    rfl
  case h_7 other k =>
    cases k
    exact absurd rfl other
  case h_8 k => exact absurd rfl (k 0 count rest)

theorem read?_run {e : RunLength} {count : UInt8} (h : count ≠ 0) (value : UInt8) (rest : Bytes) :
    read? e (count :: value :: rest) = some (.run count value, rest) := by
  rw [read?.eq_def]
  split
  case h_7 k =>
    cases k
    rfl
  case h_8 k => exact absurd rfl (k count value rest)
  -- All other directives begin with a zero.
  all_goals
    next k =>
      cases k
      exact absurd rfl h

/-- **A STORED DIRECTIVE IS READ BACK**, whatever stands behind it. -/
theorem read?_bytes {e : RunLength} {d : Directive} (h : d.Storable e) (filler : UInt8)
    (rest : Bytes) : read? e (d.bytes e filler ++ rest) = some (d, rest) := by
  cases d with
  | run count value => exact read?_run h value rest
  | literal indices =>
      obtain ⟨hmin, hmax, hfit⟩ := h
      have hcount : (UInt8.ofNat indices.length).toNat = indices.length :=
        UInt8.toNat_ofNat_of_lt' (Nat.lt_succ_of_le hmax)
      have hsize := e.length_pack filler indices
      show read? e (0 :: UInt8.ofNat indices.length :: (e.pack filler indices
        ++ List.replicate ((e.pack filler indices).length % 2) filler ++ rest)) = _
      rw [read?_literal (by rw [hcount]; exact hmin), hcount, ← hsize, List.append_assoc,
        List.take_left, RunLength.take_indicesOf_pack filler hfit, ← List.append_assoc,
        List.drop_left' (by simp)]
  | delta columns rows => rfl
  | endOfLine => rfl
  | endOfImage => rfl

end Directive

/-! ## Planes -/

namespace RunLength

/-- The two indices that take turns in a run. -/
def pair : RunLength → UInt8 → UInt8 × UInt8
  | .rle8, value => (value, value)
  | .rle4, value => (value >>> 4, value &&& 0x0F)

/-- So many indices, of which two take turns. -/
def alternating : Nat → UInt8 × UInt8 → List UInt8
  | 0, _ => []
  | count + 1, (first, second) => first :: alternating count (second, first)

end RunLength

/-- A picture without edges, and the place at which the next pixel is painted.
    Rows are counted from the top of the image on, so those above it are negative. -/
structure Plane where
  column : Nat
  row : Int
  /-- The palette index of a pixel. -/
  index : Nat → Int → UInt8

namespace Plane

/-- The plane with nothing painted. -/
def blank (row : Int) : Plane where
  column := 0
  row := row
  index := fun _ _ => 0

/-- Paints a pixel and moves on to the next. -/
def dab (p : Plane) (index : UInt8) : Plane where
  column := p.column + 1
  row := p.row
  index := fun x y => if x = p.column ∧ y = p.row then index else p.index x y

/-- Paints pixels one after the other. -/
def dabs (p : Plane) (indices : List UInt8) : Plane :=
  indices.foldl dab p

/-- Carries out a directive on a plane whose next row is `step` rows down. -/
def carryOut (e : RunLength) (step : Int) (p : Plane) : Directive → Plane
  | .run count value => p.dabs (RunLength.alternating count.toNat (e.pair value))
  | .literal indices => p.dabs indices
  | .delta columns rows =>
    { p with column := p.column + columns.toNat, row := p.row + step * rows.toNat }
  | .endOfLine => { p with column := 0, row := p.row + step }
  | .endOfImage => p

/-- Carries out directives up to the end of the image. -/
def paint (e : RunLength) (step : Int) (p : Plane) : List Directive → Plane
  | [] => p
  | .endOfImage :: _ => p
  | d :: rest => paint e step (p.carryOut e step d) rest

end Plane

namespace Bmp.Header

/-- The row of the image that is stored first. -/
def firstRow (h : Header) : Int :=
  if h.topDown then 0 else (h.height : Int) - 1

/-- How far down the row stored next is. -/
def rowStep (h : Header) : Int :=
  if h.topDown then 1 else -1

/-- The picture of directives in an image of this header. -/
def picture (h : Header) (e : RunLength) (ds : List Directive) : Plane :=
  (Plane.blank h.firstRow).paint e h.rowStep ds

/-- The palette indices of an image whose pixels are run-length encoded, by column
    and row, the top row first. -/
def indices (h : Header) (e : RunLength) (data : Array UInt8) :
    Except BitmapFault (Nat → Nat → UInt8) := do
  let start ← h.pixelStart data
  .ok fun x y => (h.canvas e data start).cell x (h.storedRow y)

/-- The image of a file is its indices seen through the palette. -/
theorem runLengthImage_eq (h : Header) (e : RunLength) (data : Array UInt8)
    (palette : Array Color) :
    h.runLengthImage e data palette
      = (h.indices e data).map fun index => Bitmap.ofDots h.width h.height fun x y =>
          (paletteColor palette (index x y).toNat).isDark := by
  rw [runLengthImage, indices]
  cases h.pixelStart data <;> rfl

/-- The row of the image that is stored at a place. -/
def place (h : Header) (row : Nat) : Int :=
  h.firstRow + h.rowStep * row

theorem place_zero (h : Header) : h.place 0 = h.firstRow := by
  rw [place, Int.natCast_zero, Int.mul_zero, Int.add_zero]

theorem place_add (h : Header) (row more : Nat) :
    h.place (row + more) = h.place row + h.rowStep * more := by
  rw [place, place, Int.natCast_add, Int.mul_add, Int.add_assoc]

theorem place_succ (h : Header) (row : Nat) : h.place (row + 1) = h.place row + h.rowStep := by
  rw [place_add, Int.natCast_one, Int.mul_one]

/-- Rows stored at different places are different rows. -/
theorem place_inj (h : Header) {row other : Nat} : h.place row = h.place other ↔ row = other := by
  rw [place, place, rowStep]
  split <;> omega

/-- The stored row of an image row is stored where it belongs. -/
theorem place_storedRow (h : Header) {y : Nat} (hy : y < h.height) :
    h.place (h.storedRow y) = y := by
  rw [place, firstRow, rowStep, storedRow]
  split <;> omega

theorem storedRow_lt (h : Header) {y : Nat} (hy : y < h.height) : h.storedRow y < h.height := by
  rw [storedRow]
  split <;> omega

end Bmp.Header

/-! ## Canvases and planes -/

theorem RunLength.shiftRight_four (value : UInt8) : value >>> 4 = value / 16 := by
  apply UInt8.toNat_inj.mp
  rw [UInt8.toNat_shiftRight, UInt8.toNat_div, Nat.shiftRight_eq_div_pow]
  rfl

theorem RunLength.and_fifteen (value : UInt8) : value &&& 0x0F = value % 16 := by
  apply UInt8.toNat_inj.mp
  rw [UInt8.toNat_and, UInt8.toNat_mod]
  exact Nat.and_two_pow_sub_one_eq_mod value.toNat 4

theorem RunLength.runIndices_eq (e : RunLength) (count value : UInt8) :
    e.runIndices count value = alternating count.toNat (e.pair value) := by
  -- By twos: an index comes back after the one that it takes turns with.
  have key : ∀ (n : Nat) (a b : UInt8),
      (List.range n).map (fun k => if k % 2 = 0 then a else b) = alternating n (a, b) := by
    intro n
    induction n with
    | zero => intro a b; rfl
    | succ n ih =>
        intro a b
        rw [List.range_succ_eq_map, List.map_cons, List.map_map, alternating, ← ih b a]
        refine congrArg (a :: ·) (List.map_congr_left ?_)
        intro k _
        show (if (k + 1) % 2 = 0 then a else b) = if k % 2 = 0 then b else a
        split <;> split <;> first | rfl | omega
  cases e with
  | rle8 =>
      show List.replicate count.toNat value = alternating count.toNat (value, value)
      rw [← key]
      simp [List.map_const']
  | rle4 =>
      show (List.range count.toNat).map _ = alternating count.toNat (value >>> 4, value &&& 0x0F)
      rw [← key, shiftRight_four, and_fifteen]

/-- A canvas that shows the part of a plane that is in the image.  Past the right
    edge the two cursors may be at different columns. -/
structure Canvas.Shows (c : Canvas) (h : Bmp.Header) (p : Plane) : Prop where
  width : c.width = h.width
  height : c.height = h.height
  size : c.cells.size = h.width * h.height
  row : p.row = h.place c.row
  column : c.column = p.column ∨ h.width ≤ c.column ∧ h.width ≤ p.column
  cell : ∀ x row, x < h.width → row < h.height → c.cell x row = p.index x (h.place row)

namespace Canvas

theorem row_put (c : Canvas) (index : UInt8) : (c.put index).row = c.row := by
  rw [put]
  split <;> rfl

variable {c : Canvas} {h : Bmp.Header} {p : Plane} {e : RunLength}

theorem shows_blank (h : Bmp.Header) :
    (blank h.width h.height).Shows h (Plane.blank h.firstRow) where
  width := rfl
  height := rfl
  size := Array.size_replicate
  row := h.place_zero.symm
  column := .inl rfl
  cell := by
    intro x row _ _
    show (Array.replicate (h.width * h.height) (0 : UInt8)).getD _ 0 = 0
    rw [Array.getD_eq_getD_getElem?, Array.getElem?_replicate]
    split <;> rfl

/-- A pixel that is painted changes the cell under the cursor and no other. -/
theorem cell_put (hsize : c.cells.size = c.width * c.height) (hcolumn : c.column < c.width)
    (hrow : c.row < c.height) (index : UInt8) {x row : Nat} (hx : x < c.width) :
    (c.put index).cell x row
      = if row = c.row ∧ x = c.column then index else c.cell x row := by
  have hin : c.row * c.width + c.column < c.cells.size := by
    rw [hsize]
    exact rowMajor_lt hcolumn hrow
  rw [Canvas.put, if_pos ⟨hcolumn, hrow⟩]
  show (c.cells.setIfInBounds (c.row * c.width + c.column) index).getD (row * c.width + x) 0
    = if row = c.row ∧ x = c.column then index else c.cells.getD (row * c.width + x) 0
  rw [Array.getD_eq_getD_getElem?, Array.getD_eq_getD_getElem?, Array.getElem?_setIfInBounds,
    if_pos hin]
  by_cases hat : row = c.row ∧ x = c.column
  · rw [if_pos hat, if_pos ((rowMajor_eq_iff hcolumn hx).mpr ⟨hat.1.symm, hat.2.symm⟩)]
    rfl
  · rw [if_neg hat, if_neg fun k => hat ?_]
    obtain ⟨hr, hc⟩ := (rowMajor_eq_iff hcolumn hx).mp k
    exact ⟨hr.symm, hc.symm⟩

/-- A pixel in the image is painted on both, and one past the right edge on
    neither as far as can be seen. -/
theorem Shows.put (hs : c.Shows h p) (inside : c.row < h.height) (index : UInt8) :
    (c.put index).Shows h (p.dab index) := by
  by_cases hc : c.column < h.width
  · have hp : c.column = p.column := by
      rcases hs.column with hp | ⟨hout, -⟩
      · exact hp
      · omega
    have hput : c.put index
        = { c with
            cells := c.cells.setIfInBounds (c.row * c.width + c.column) index
            column := c.column + 1 } := by
      rw [Canvas.put, if_pos ⟨hs.width ▸ hc, hs.height ▸ inside⟩]
    refine ⟨?_, ?_, ?_, ?_, ?_, ?_⟩
    · rw [hput]
      exact hs.width
    · rw [hput]
      exact hs.height
    · rw [hput, Array.size_setIfInBounds]
      exact hs.size
    · rw [hput]
      exact hs.row
    · rw [hput]
      exact .inl (congrArg (· + 1) hp)
    · intro x row hx hrow
      rw [cell_put (by rw [hs.width, hs.height, hs.size]) (hs.width ▸ hc) (hs.height ▸ inside)
        index (hs.width ▸ hx), hs.cell x row hx hrow]
      have hat : (row = c.row ∧ x = c.column) = (x = p.column ∧ h.place row = p.row) := by
        rw [hs.row, h.place_inj, hp, And.comm]
      exact ite_congr hat (fun _ => rfl) fun _ => rfl
  · have hput : c.put index = c := by
      rw [Canvas.put, if_neg fun k => hc (hs.width ▸ k.1)]
    have hout : h.width ≤ p.column := by
      rcases hs.column with hp | ⟨-, hp⟩ <;> omega
    rw [hput]
    refine { hs with column := .inr ⟨Nat.not_lt.mp hc, Nat.le_succ_of_le hout⟩, cell := ?_ }
    intro x row hx hrow
    rw [hs.cell x row hx hrow]
    exact (if_neg fun k => absurd k.1 (Nat.ne_of_lt (Nat.lt_of_lt_of_le hx hout))).symm

theorem Shows.paint (hs : c.Shows h p) (inside : c.row < h.height) (indices : List UInt8) :
    (c.paint indices).Shows h (p.dabs indices) := by
  induction indices generalizing c p with
  | nil => exact hs
  | cons index rest ih => exact ih (hs.put inside index) (by rw [row_put]; exact inside)

/-- A directive does the same to both while the cursor is in the image. -/
theorem Shows.perform (hs : c.Shows h p) (inside : c.row < h.height) (e : RunLength)
    (d : Directive) : (c.perform e d).Shows h (p.carryOut e h.rowStep d) := by
  cases d with
  | run count value =>
      rw [Canvas.perform, RunLength.runIndices_eq]
      exact hs.paint inside _
  | literal indices => exact hs.paint inside indices
  | delta columns rows =>
      refine { hs with row := ?_, column := ?_ }
      · show p.row + h.rowStep * rows.toNat = h.place (c.row + rows.toNat)
        rw [h.place_add, hs.row]
      · rcases hs.column with hp | ⟨hc, hp⟩
        · exact .inl (congrArg (· + columns.toNat) hp)
        · exact .inr ⟨Nat.le_add_right_of_le hc, Nat.le_add_right_of_le hp⟩
  | endOfLine =>
      refine { hs with row := ?_, column := .inl rfl }
      show p.row + h.rowStep = h.place (c.row + 1)
      rw [h.place_succ, hs.row]
  | endOfImage => exact hs

end Canvas

/-! ## Past the last row -/

namespace Plane

variable {h : Bmp.Header} {p : Plane}

theorem row_dabs (p : Plane) (indices : List UInt8) : (p.dabs indices).row = p.row := by
  induction indices generalizing p with
  | nil => rfl
  | cons index rest ih => exact ih (p.dab index)

/-- Painting in a row leaves the others alone. -/
theorem index_dabs {y : Int} (hy : y ≠ p.row) (indices : List UInt8) (x : Nat) :
    (p.dabs indices).index x y = p.index x y := by
  induction indices generalizing p with
  | nil => rfl
  | cons index rest ih =>
      have hdab : (p.dab index).index x y = p.index x y := if_neg fun k => hy k.2
      exact (ih (p := p.dab index) hy).trans hdab

/-- A directive paints at most in the row of the cursor, and takes the cursor on
    or leaves it in its row. -/
theorem index_carryOut {row : Nat} (hrow : p.row = h.place row) (e : RunLength) (d : Directive) :
    (∀ x y, y ≠ p.row → (p.carryOut e h.rowStep d).index x y = p.index x y)
      ∧ ∃ next, row ≤ next ∧ (p.carryOut e h.rowStep d).row = h.place next := by
  cases d with
  | run count value =>
      exact ⟨fun x y hy => index_dabs hy _ x, row, Nat.le_refl row, (p.row_dabs _).trans hrow⟩
  | literal indices =>
      exact ⟨fun x y hy => index_dabs hy indices x, row, Nat.le_refl row,
        (p.row_dabs indices).trans hrow⟩
  | delta columns rows =>
      refine ⟨fun x y _ => rfl, row + rows.toNat, Nat.le_add_right _ _, ?_⟩
      show p.row + h.rowStep * rows.toNat = _
      rw [h.place_add, hrow]
  | endOfLine =>
      refine ⟨fun x y _ => rfl, row + 1, Nat.le_succ row, ?_⟩
      show p.row + h.rowStep = _
      rw [h.place_succ, hrow]
  | endOfImage => exact ⟨fun x y _ => rfl, row, Nat.le_refl row, hrow⟩

theorem paint_cons {d : Directive} (hd : d ≠ .endOfImage) (e : RunLength) (step : Int)
    (p : Plane) (rest : List Directive) :
    p.paint e step (d :: rest) = (p.carryOut e step d).paint e step rest := by
  cases d with
  | endOfImage => exact absurd rfl hd
  | _ => rfl

/-- **NOTHING IN THE IMAGE IS PAINTED ANY MORE** once the cursor is past the row
    stored last: it only ever moves on. -/
theorem index_paint_of_past {row : Nat} (hrow : p.row = h.place row) (past : h.height ≤ row)
    (e : RunLength) (ds : List Directive) (x : Nat) {shown : Nat} (hshown : shown < h.height) :
    (p.paint e h.rowStep ds).index x (h.place shown) = p.index x (h.place shown) := by
  induction ds generalizing p row with
  | nil => rfl
  | cons d rest ih =>
      by_cases hd : d = .endOfImage
      · subst hd
        rfl
      · obtain ⟨hkeep, next, hle, hnext⟩ := index_carryOut hrow e d
        rw [paint_cons hd, ih hnext (Nat.le_trans past hle)]
        refine hkeep x _ ?_
        rw [hrow, Ne, h.place_inj]
        omega

end Plane

/-! ## The whole data -/

namespace Canvas

variable {c : Canvas} {h : Bmp.Header} {p : Plane} {e : RunLength}

theorem follow_endOfImage {bytes rest : Bytes}
    (hread : Directive.read? e bytes = some (.endOfImage, rest)) : c.follow e bytes = c := by
  rw [follow]
  split
  next => rfl
  next => rfl
  next other h =>
    cases hread.symm.trans h
    exact absurd rfl other

theorem follow_of_read? {bytes rest : Bytes} {d : Directive}
    (hread : Directive.read? e bytes = some (d, rest)) (hd : d ≠ .endOfImage) :
    c.follow e bytes
      = if (c.perform e d).row < (c.perform e d).height then (c.perform e d).follow e rest
        else c.perform e d := by
  rw [follow]
  split
  next h => cases hread.symm.trans h
  next h =>
    cases hread.symm.trans h
    exact absurd rfl hd
  next h =>
    cases hread.symm.trans h
    rfl

/-- **THE DECODER PAINTS THE PICTURE**: what it is given are directives up to the
    end of the image, and anything behind that. -/
theorem Shows.cell_follow (hs : c.Shows h p) (inside : c.row < h.height) (filler : UInt8)
    (trailing : Bytes) {ds : List Directive} (storable : ∀ d ∈ ds, d.Storable e)
    {x row : Nat} (hx : x < h.width) (hrow : row < h.height) :
    (c.follow e (ds.flatMap (Directive.bytes e filler)
        ++ (Directive.endOfImage.bytes e filler ++ trailing))).cell x row
      = (p.paint e h.rowStep ds).index x (h.place row) := by
  induction ds generalizing c p with
  | nil =>
      rw [List.flatMap_nil, List.nil_append,
        follow_endOfImage (Directive.read?_bytes (d := .endOfImage) trivial filler trailing)]
      exact hs.cell x row hx hrow
  | cons d rest ih =>
      rw [List.forall_mem_cons] at storable
      rw [List.flatMap_cons, List.append_assoc]
      by_cases hd : d = .endOfImage
      · subst hd
        rw [follow_endOfImage (Directive.read?_bytes (d := .endOfImage) trivial filler _)]
        exact hs.cell x row hx hrow
      · have hnext := hs.perform inside e d
        rw [follow_of_read? (Directive.read?_bytes storable.1 filler _) hd, Plane.paint_cons hd]
        split
        next hin =>
          rw [hnext.height] at hin
          exact ih hnext hin storable.2
        next hout =>
          -- The decoder stops here; the rest of the picture is out of sight.
          rw [hnext.height, Nat.not_lt] at hout
          rw [hnext.cell x row hx hrow, Plane.index_paint_of_past hnext.row hout e rest x hrow]

end Canvas

namespace Bmp

/-- **RUN-LENGTH DATA ARE DECODED EXACTLY**, for every size, row order, encoding
    and list of directives, wherever in the file they stand and whatever stands
    behind them: there is no fault, each pixel has the index that it has in the
    picture, and the image is made of these indices. -/
theorem Header.indices_of_directives (h : Header) (e : RunLength) (filler : UInt8)
    {ds : List Directive} (storable : ∀ d ∈ ds, d.Storable e) (before : Bytes)
    (offset : before.length = h.pixelOffset) (trailing : Bytes) :
    let data := (before ++ (ds.flatMap (Directive.bytes e filler)
      ++ (Directive.endOfImage.bytes e filler ++ trailing))).toArray
    ∃ index, h.indices e data = .ok index
      ∧ (∀ x y, x < h.width → y < h.height → index x y = (h.picture e ds).index x y)
      ∧ ∀ palette, h.runLengthImage e data palette
        = .ok (Bitmap.ofDots h.width h.height fun x y =>
          (paletteColor palette (index x y).toNat).isDark) := by
  intro data
  have hstart : h.pixelStart data = .ok before.length := by
    rw [pixelStart, if_neg (by simp [data, ← offset]), offset]
  have hok : h.indices e data
      = .ok fun x y => (h.canvas e data before.length).cell x (h.storedRow y) := by
    rw [indices, hstart]
    rfl
  refine ⟨_, hok, ?_, ?_⟩
  · intro x y hx hy
    have hs := Canvas.shows_blank h
    have hpos : 0 < h.height := Nat.zero_lt_of_lt hy
    rw [canvas, List.toList_toArray, List.drop_left,
      hs.cell_follow hpos filler trailing storable hx (h.storedRow_lt hy), h.place_storedRow hy]
    rfl
  · intro palette
    rw [runLengthImage_eq, hok]
    rfl

/-- The header of an image of six by two pixels whose bottom row is stored first. -/
def sixByTwo : Header where
  pixelOffset := 2
  size := 40
  width := 6
  height := 2
  topDown := false
  bits := 4
  runLength := some .rle4

/-- A run past the right edge, an odd number of literals, a move past the top row
    with a run behind it, and a line after the end. -/
def clippedDirectives : List Directive := [
  .run 7 0x12, .endOfLine, .literal [3, 4, 5, 6, 7], .delta 0 1, .run 2 0x77, .endOfImage,
  .endOfLine]

/-- The indices in the image, the top row first. -/
def clippedRows : List (List UInt8) := [[3, 4, 5, 6, 7, 0], [1, 2, 1, 2, 1, 2]]

/-- The run fills the bottom row, the literals begin the top row, and the rest
    cannot be seen. -/
theorem indices_of_clippedDirectives :
    (∀ d ∈ clippedDirectives, d.Storable .rle4)
      ∧ ([0x42, 0x4D] : Bytes).length = sixByTwo.pixelOffset
      ∧ ∃ index, sixByTwo.indices .rle4
            #[0x42, 0x4D, 0x07, 0x12, 0x00, 0x00, 0x00, 0x05, 0x34, 0x56, 0x7F, 0xFF, 0x00, 0x02,
              0x00, 0x01, 0x02, 0x77, 0x00, 0x01, 0x00, 0x00, 0x00, 0x01, 0xAB] = .ok index
        ∧ ∀ x y, x < 6 → y < 2 →
          index x y = (clippedRows.getD y []).getD x 0 := by
  have storable : ∀ d ∈ clippedDirectives, d.Storable .rle4 := by decide +kernel
  obtain ⟨index, hok, hindex, -⟩ :=
    Header.indices_of_directives sixByTwo .rle4 0xFF storable [0x42, 0x4D] rfl [0xAB]
  refine ⟨storable, rfl, index, hok, ?_⟩
  have hpicture : ∀ x < 6, ∀ y : Nat, y < 2 →
      (sixByTwo.picture .rle4 clippedDirectives).index x y
        = (clippedRows.getD y []).getD x 0 := by decide
  intro x y hx hy
  rw [hindex x y hx hy, hpicture x hx y hy]

end Bmp

end ReceiptPrinter
