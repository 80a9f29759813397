import ReceiptPrinter.Proofs.Image.Guarded.Directives
import ReceiptPrinter.Proofs.Image.Guarded.Rows

/-! # Guarded runs — pixels with run lengths

    The cursor is a column, which only the edge of a type stops, and a signed row.
    It stands on a grid whose top row comes first, while a canvas has its rows in the
    order in which they are stored.  `Canvas.cursor` is the one seen as the other;
    it does not depend on how the canvas was painted, so the two machines take the
    same turns (`Guarded.follow_eq`).

    A cursor that is in a row of the image paints within the grid.  It leaves the
    rows by a move, and after that nothing is painted.  A move adds at most 255 to
    the column and takes four bytes of the file, so the column cannot outgrow its
    type unless the file has more than 2⁵⁸ bytes (`Guarded.perform_eq`). -/

namespace ReceiptPrinter

open Bmp

/-- A grid of palette indices, top row first, and a cursor on it. -/
structure Cursor where
  width : Nat
  height : Nat
  x : Nat
  y : Int
  step : Int
  indices : Array UInt8

/-- Whether a directive moves the cursor to another row. -/
def Directive.moves : Directive → Bool
  | .delta .. | .endOfLine => true
  | _ => false

namespace Cursor

open Guarded

/-- The row that is stored first. -/
def firstRow (h : Header) : Guarded Int :=
  if h.topDown then .ok 0 else fitsSigned ((h.height : Int) - 1)

/-- The cursor on the row that is stored first, on a grid of zeros. -/
def start (h : Header) : Guarded Cursor := do
  let y ← firstRow h
  let size ← fits 64 (h.width * h.height)
  .ok {
    y
    width := h.width
    height := h.height
    x := 0
    step := if h.topDown then 1 else -1
    indices := Array.replicate size 0 }

/-- Whether the cursor is in a row of the image. -/
def inRows (c : Cursor) : Bool :=
  decide (0 ≤ c.y) && decide (c.y.toNat < c.height)

/-- Paints the pixel under the cursor and moves on; outside the image nothing
    happens. -/
def put (c : Cursor) (index : UInt8) : Guarded Cursor :=
  if c.x < c.width ∧ c.inRows then do
    let place ← fits 64 (c.y.toNat * c.width + c.x)
    let indices ← replace c.indices place index
    let x ← fits 64 (c.x + 1)
    .ok { c with x, indices }
  else .ok c

/-- Carries out a directive. -/
def perform (e : RunLength) (c : Cursor) : Directive → Guarded Cursor
  | .run count value => (List.range count.toNat).foldlM (fun c k => c.put (e.inTurn value k)) c
  | .literal indices => indices.foldlM put c
  | .delta columns rows => do
    let x ← fits 64 (c.x + columns.toNat)
    let down ← fitsSigned (rows.toNat * c.step)
    let y ← fitsSigned (c.y + down)
    .ok { c with x, y }
  | .endOfLine => do
    let y ← fitsSigned (c.y + c.step)
    .ok { c with x := 0, y }
  | .endOfImage => .ok c

/-- Carries out the directives of a file from a place on, up to the end of the
    image, the end of the file, or the move that takes the cursor out of the rows. -/
def follow (e : RunLength) (data : Array UInt8) (c : Cursor) (i : Nat) : Guarded Cursor :=
  match h : next? e data i with
  | .error stop => .error stop
  | .ok none => .ok c
  | .ok (some (.endOfImage, _)) => .ok c
  | .ok (some (d, j)) =>
    have := lt_of_next? h
    match c.perform e d with
    | .error stop => .error stop
    | .ok moved => if d.moves && !moved.inRows then .ok moved else follow e data moved j
termination_by data.size - i

variable {data : Array UInt8} {e : RunLength} {c : Cursor} {i j : Nat} {d : Directive}

theorem follow_none (hnext : next? e data i = .ok none) : c.follow e data i = .ok c := by
  rw [follow]
  split
  next stop h => cases hnext.symm.trans h
  next => rfl
  next => rfl
  next h => cases hnext.symm.trans h

theorem follow_endOfImage (hnext : next? e data i = .ok (some (.endOfImage, j))) :
    c.follow e data i = .ok c := by
  rw [follow]
  split
  next stop h => cases hnext.symm.trans h
  next => rfl
  next => rfl
  next d _ other h =>
    cases hnext.symm.trans h
    exact absurd rfl other

theorem follow_some (hnext : next? e data i = .ok (some (d, j))) (hd : d ≠ .endOfImage) :
    c.follow e data i = c.perform e d >>= fun moved =>
      if d.moves && !moved.inRows then .ok moved else moved.follow e data j := by
  rw [follow]
  split
  next stop h => cases hnext.symm.trans h
  next h => cases hnext.symm.trans h
  next h =>
    cases hnext.symm.trans h
    exact absurd rfl hd
  next h =>
    cases hnext.symm.trans h
    cases c.perform e d <;> rfl

end Cursor

theorem Canvas.follow_none {c : Canvas} {e : RunLength} {bytes : Bytes}
    (hread : Directive.read? e bytes = none) : c.follow e bytes = c := by
  rw [follow]
  split
  next => rfl
  next => rfl
  next h => cases hread.symm.trans h

/-- A canvas as a cursor on a grid whose top row comes first. -/
def Canvas.cursor (h : Header) (c : Canvas) : Cursor where
  width := h.width
  height := h.height
  x := c.column
  y := h.place c.row
  step := h.rowStep
  indices := Array.ofFn fun i : Fin (h.width * h.height) =>
    c.cell (i % h.width) (h.storedRow (i / h.width))

/-- A canvas of the size that a header gives, with indices that the encoding has
    room for. -/
structure Canvas.Fitting (c : Canvas) (h : Header) (e : RunLength) : Prop where
  width : c.width = h.width
  height : c.height = h.height
  size : c.cells.size = h.width * h.height
  fits : ∀ place, e.Fits (c.cells.getD place 0)

/-- A canvas at the place `i` of a file, with the cursor in a row of the image. -/
structure Canvas.Ready (c : Canvas) (h : Header) (e : RunLength) (i : Nat) : Prop where
  fitting : c.Fitting h e
  row : c.row < h.height
  /-- Pixels take the column at most to the right edge.  Past it there are only moves,
      each by at most 255 columns for four bytes. -/
  column : 4 * c.column ≤ 4 * h.width + 255 * i

namespace Guarded

variable {data : Array UInt8} {profile : Profile} {h : Header} {e : RunLength} {c : Canvas}
  {i : Nat}

/-! ## The grid -/

/-- A stored row of a stored row is the row itself. -/
theorem storedRow_storedRow {y : Nat} (hy : y < h.height) : h.storedRow (h.storedRow y) = y := by
  rw [Header.storedRow, Header.storedRow]
  split <;> omega

/-- The row of a cursor is in the image just if that of the canvas is. -/
theorem inRows_cursor (h : Header) (c : Canvas) :
    (c.cursor h).inRows = decide (c.row < h.height) := by
  rw [Cursor.inRows, Canvas.cursor, ← Bool.decide_and]
  apply decide_eq_decide.mpr
  show 0 ≤ h.place c.row ∧ (h.place c.row).toNat < h.height ↔ _
  rw [Header.place, Header.firstRow, Header.rowStep]
  split <;> omega

theorem toNat_place (hrow : c.row < h.height) : (h.place c.row).toNat = h.storedRow c.row := by
  rw [Header.place, Header.firstRow, Header.rowStep, Header.storedRow]
  split <;> omega

theorem size_indices (h : Header) (c : Canvas) : (c.cursor h).indices.size = h.width * h.height :=
  Array.size_ofFn

theorem getD_blank (width height place : Nat) :
    (Canvas.blank width height).cells.getD place 0 = 0 := by
  rw [Canvas.blank, Array.getD_eq_getD_getElem?, Array.getElem?_replicate]
  split <;> rfl

theorem start_eq (sound : h.Sound profile data) :
    Cursor.start h = .ok ((Canvas.blank h.width h.height).cursor h) := by
  obtain ⟨-, hwidth, hheight⟩ := limits_of_sound sound
  have hgrid := Nat.mul_le_mul hwidth hheight
  have hfirst : Cursor.firstRow h = .ok (h.place 0) := by
    rw [Cursor.firstRow, fitsSigned_of_lt (by omega) (by omega), h.place_zero, Header.firstRow]
    split <;> rfl
  have hcells : Array.replicate (h.width * h.height) 0
      = ((Canvas.blank h.width h.height).cursor h).indices := by
    apply Array.ext
    · rw [Array.size_replicate, size_indices]
    · intro i hi hi'
      rw [Array.getElem_replicate]
      exact ((Array.getElem_ofFn _).trans (getD_blank _ _ _)).symm
  rw [Cursor.start, hfirst, ok_bind, fits_of_lt (by omega), ok_bind, hcells]
  rfl

/-- Painting a pixel changes one entry of the grid. -/
theorem indices_put (fitting : c.Fitting h e) (hrow : c.row < h.height)
    (hcolumn : c.column < h.width) (index : UInt8) :
    (c.cursor h).indices.setIfInBounds (h.storedRow c.row * h.width + c.column) index
      = ((c.put index).cursor h).indices := by
  apply Array.ext
  · rw [Array.size_setIfInBounds, size_indices, size_indices]
  · intro i hi hi'
    have hin : i < h.width * h.height := by rwa [size_indices] at hi'
    have hmod : i % h.width < h.width := Nat.mod_lt i (Nat.zero_lt_of_lt hcolumn)
    have hdiv : i / h.width < h.height := Nat.div_lt_of_lt_mul hin
    have hplace : h.storedRow c.row * h.width + c.column = i
        ↔ h.storedRow (i / h.width) = c.row ∧ i % h.width = c.column := by
      rw [← Nat.div_add_mod' i h.width, rowMajor_eq_iff hcolumn hmod, Nat.div_add_mod']
      constructor
      · rintro ⟨hrows, hcolumns⟩
        exact ⟨by rw [← hrows, storedRow_storedRow hrow], hcolumns.symm⟩
      · rintro ⟨hrows, hcolumns⟩
        exact ⟨by rw [← hrows, storedRow_storedRow hdiv], hcolumns.symm⟩
    simp only [Canvas.cursor, Array.getElem_ofFn]
    rw [Array.getElem_setIfInBounds (by rwa [Array.size_ofFn]), Array.getElem_ofFn,
      Canvas.cell_put (by rw [fitting.width, fitting.height, fitting.size])
      (fitting.width ▸ hcolumn) (fitting.height ▸ hrow) index (fitting.width ▸ hmod)]
    exact ite_congr (propext hplace) (fun _ => rfl) fun _ => rfl

theorem fitting_blank (h : Header) (e : RunLength) :
    (Canvas.blank h.width h.height).Fitting h e where
  width := rfl
  height := rfl
  size := Array.size_replicate
  fits := by
    intro place
    rw [getD_blank]
    cases e <;> decide

theorem fitting_put (fitting : c.Fitting h e) {index : UInt8} (hindex : e.Fits index) :
    (c.put index).Fitting h e := by
  rw [Canvas.put]
  split
  · refine { fitting with size := ?_, fits := ?_ }
    · rw [Array.size_setIfInBounds, fitting.size]
    · intro place
      have hold := fitting.fits place
      rw [Array.getD_eq_getD_getElem?] at hold ⊢
      rw [Array.getElem?_setIfInBounds]
      split
      · split
        · exact hindex
        · cases e <;> decide
      · exact hold
  · exact fitting

/-- A pixel takes the cursor at most to the right edge. -/
theorem column_put (fitting : c.Fitting h e) (index : UInt8) :
    (c.put index).column ≤ max c.column h.width := by
  rw [Canvas.put]
  split
  next hin =>
    have := fitting.width ▸ hin.1
    show c.column + 1 ≤ _
    omega
  · exact Nat.le_max_left _ _

/-- **A PIXEL IS PAINTED WITHIN THE GRID.** -/
theorem put_eq (sound : h.Sound profile data) (fitting : c.Fitting h e) (hrow : c.row < h.height)
    (index : UInt8) : (c.cursor h).put index = .ok ((c.put index).cursor h) := by
  obtain ⟨-, hwidth, hheight⟩ := limits_of_sound sound
  have hgrid := Nat.mul_le_mul hwidth hheight
  have hrows : (c.cursor h).inRows = true := by
    rw [inRows_cursor]
    exact decide_eq_true hrow
  rw [Cursor.put, hrows]
  by_cases hcolumn : c.column < h.width
  · have hplace : h.storedRow c.row * h.width + c.column < h.width * h.height :=
      rowMajor_lt hcolumn (h.storedRow_lt hrow)
    rw [if_pos ⟨hcolumn, rfl⟩]
    show (fits 64 ((h.place c.row).toNat * h.width + c.column) >>= _) = _
    rw [toNat_place hrow, fits_of_lt (by omega), ok_bind,
      replace_of_lt (by rwa [size_indices]), ok_bind]
    show (fits 64 (c.column + 1) >>= _) = _
    rw [fits_of_lt (by omega), ok_bind, indices_put fitting hrow hcolumn, Canvas.put,
      if_pos ⟨fitting.width ▸ hcolumn, fitting.height ▸ hrow⟩]
    rfl
  · rw [if_neg fun k => hcolumn k.1, Canvas.put, if_neg fun k => hcolumn (fitting.width ▸ k.1)]

/-! ## Directives -/

theorem fits_inTurn (value : UInt8) (k : Nat) : e.Fits (e.inTurn value k) := by
  cases e with
  | rle8 => trivial
  | rle4 =>
      rw [RunLength.inTurn, RunLength.shiftRight_four, RunLength.and_fifteen]
      split
      · exact fits_div value
      · exact fits_mod value

theorem runIndices_eq_map (count value : UInt8) :
    e.runIndices count value = (List.range count.toNat).map (e.inTurn value) := by
  cases e with
  | rle8 =>
      show List.replicate count.toNat value = (List.range count.toNat).map fun _ => value
      rw [List.map_const', List.length_range]
  | rle4 =>
      refine List.map_congr_left fun k _ => ?_
      rw [RunLength.inTurn, RunLength.shiftRight_four, RunLength.and_fifteen]

/-- **PIXELS ARE PAINTED ONE AFTER THE OTHER**, and the cursor stays in its row. -/
theorem paint_eq {α : Type} (sound : h.Sound profile data) (ready : c.Ready h e i)
    (index : α → UInt8) {xs : List α} (fits : ∀ a ∈ xs, e.Fits (index a)) :
    xs.foldlM (fun c a => c.put (index a)) (c.cursor h) = .ok ((c.paint (xs.map index)).cursor h)
      ∧ (c.paint (xs.map index)).Ready h e i := by
  rw [Canvas.paint, List.foldl_map]
  refine foldlM_eq (Canvas.cursor h) (fun c => c.Ready h e i) ?_ ready
  intro c ready a ha
  have hcolumn := column_put ready.fitting (index a)
  have hold := ready.column
  refine ⟨put_eq sound ready.fitting ready.row (index a), fitting_put ready.fitting (fits a ha), ?_,
    by omega⟩
  rw [Canvas.row_put]
  exact ready.row

/-- Moving on by less than 256 rows keeps the row of a cursor in its type. -/
theorem fitsSigned_place (sound : h.Sound profile data) {row : Nat} (hrow : row < h.height)
    {rows : Nat} (hrows : rows < 256) :
    fitsSigned (rows * h.rowStep) = .ok (rows * h.rowStep)
      ∧ fitsSigned (h.place row + rows * h.rowStep) = .ok (h.place (row + rows)) := by
  obtain ⟨-, -, hheight⟩ := limits_of_sound sound
  rw [h.place_add, Int.mul_comm, Header.place, Header.firstRow, Header.rowStep]
  split <;>
    exact ⟨fitsSigned_of_lt (by omega) (by omega), fitsSigned_of_lt (by omega) (by omega)⟩

/-- A move by columns and rows, if the column keeps to its type. -/
theorem delta_eq (sound : h.Sound profile data) (hrow : c.row < h.height) {columns : UInt8}
    (room : c.column + columns.toNat < 2 ^ 64) (rows : UInt8) :
    (c.cursor h).perform e (.delta columns rows)
      = .ok ((c.perform e (.delta columns rows)).cursor h) := by
  obtain ⟨hdown, hy⟩ := fitsSigned_place sound hrow rows.toNat_lt
  show (fits 64 (c.column + columns.toNat) >>= _) = _
  rw [fits_of_lt room, ok_bind]
  show (fitsSigned (rows.toNat * h.rowStep) >>= _) = _
  rw [hdown, ok_bind]
  show (fitsSigned (h.place c.row + rows.toNat * h.rowStep) >>= _) = _
  rw [hy, ok_bind]
  rfl

theorem endOfLine_eq (sound : h.Sound profile data) (hrow : c.row < h.height) :
    (c.cursor h).perform e .endOfLine = .ok ((c.perform e .endOfLine).cursor h) := by
  obtain ⟨-, hy⟩ := fitsSigned_place sound hrow (show 1 < 256 by decide)
  rw [Int.natCast_one, Int.one_mul] at hy
  show (fitsSigned (h.place c.row + h.rowStep) >>= _) = _
  rw [hy, ok_bind]
  rfl

/-- **A DIRECTIVE IS CARRIED OUT WITHIN THE GRID.**  Only a move can stop, and only
    in a file of more than 2⁵⁸ bytes. -/
theorem perform_eq (sound : h.Sound profile data) (ready : c.Ready h e i) {d : Directive} {j : Nat}
    (taken : Taken e data.size i d j) :
    ((c.cursor h).perform e d = .ok ((c.perform e d).cursor h)
        ∧ (c.perform e d).Fitting h e
        ∧ (d.moves = false → (c.perform e d).row < h.height)
        ∧ 4 * (c.perform e d).column ≤ 4 * h.width + 255 * j)
      ∨ (c.cursor h).perform e d = .error .overflow ∧ 2 ^ 58 < data.size := by
  obtain ⟨-, hwidth, -⟩ := limits_of_sound sound
  have hforward := taken.forward
  have hcolumn := ready.column
  cases d with
  | run count value =>
      obtain ⟨hok, hready⟩ := paint_eq sound ready (e.inTurn value)
        fun k (_ : k ∈ List.range count.toNat) => fits_inTurn value k
      rw [← runIndices_eq_map] at hok hready
      have := hready.column
      refine .inl ⟨hok, hready.fitting, fun _ => hready.row, ?_⟩
      show 4 * (c.paint _).column ≤ _
      omega
  | literal indices =>
      obtain ⟨hok, hready⟩ := paint_eq sound ready id (taken.literal indices rfl)
      rw [List.map_id] at hok hready
      have := hready.column
      refine .inl ⟨hok, hready.fitting, fun _ => hready.row, ?_⟩
      show 4 * (c.paint _).column ≤ _
      omega
  | delta columns rows =>
      have hinside := taken.inside
      have hfour := taken.delta columns rows rfl
      have hadded := columns.toNat_lt
      by_cases room : c.column + columns.toNat < 2 ^ 64
      · refine .inl ⟨delta_eq sound ready.row room rows, { ready.fitting with },
          (fun still => by cases still), ?_⟩
        show 4 * (c.column + columns.toNat) ≤ _
        omega
      · refine .inr ⟨?_, by omega⟩
        show (fits 64 (c.column + columns.toNat) >>= _) = _
        rw [fits, if_neg room]
        rfl
  | endOfLine =>
      refine .inl ⟨endOfLine_eq sound ready.row, { ready.fitting with },
        (fun still => by cases still), ?_⟩
      show 4 * 0 ≤ _
      omega
  | endOfImage =>
      exact .inl ⟨rfl, ready.fitting, fun _ => ready.row, by show 4 * c.column ≤ _; omega⟩

/-! ## The whole data -/

/-- **THE CURSOR AND THE CANVAS TAKE THE SAME TURNS**, from any place of the file.
    Or the column outgrows its type, in a file of more than 2⁵⁸ bytes. -/
theorem follow_eq (sound : h.Sound profile data) (size : data.size < 2 ^ 63) {c : Canvas} {i : Nat}
    (ready : c.Ready h e i) (hi : i ≤ data.size + 256) :
    ((c.cursor h).follow e data i = .ok ((c.follow e (data.toList.drop i)).cursor h)
        ∧ (c.follow e (data.toList.drop i)).Fitting h e)
      ∨ (c.cursor h).follow e data i = .error .overflow ∧ 2 ^ 58 < data.size := by
  rcases next?_eq size hi with ⟨hnext, hread⟩ | ⟨d, j, hnext, hread, taken⟩
  · rw [Cursor.follow_none hnext, Canvas.follow_none hread]
    exact .inl ⟨rfl, ready.fitting⟩
  · have hinside := taken.inside
    have hforward := taken.forward
    by_cases hd : d = .endOfImage
    · subst hd
      rw [Cursor.follow_endOfImage hnext, Canvas.follow_endOfImage hread]
      exact .inl ⟨rfl, ready.fitting⟩
    · rw [Cursor.follow_some hnext hd, Canvas.follow_of_read? hread hd]
      rcases perform_eq sound ready taken with ⟨hok, fitting, hrow, hcolumn⟩ | ⟨hstop, hlong⟩
      · rw [hok, ok_bind, inRows_cursor, fitting.height]
        by_cases hin : (c.perform e d).row < h.height
        · rw [if_pos hin, decide_eq_true hin, Bool.not_true, Bool.and_false,
            if_neg Bool.false_ne_true]
          exact follow_eq sound size ⟨fitting, hin, hcolumn⟩ taken.near
        · have hmoves : d.moves = true := by
            cases hm : d.moves with
            | false => exact absurd (hrow hm) hin
            | true => rfl
          rw [if_neg hin, decide_eq_false hin, hmoves]
          exact .inl ⟨rfl, fitting⟩
      · rw [hstop]
        exact .inr ⟨rfl, hlong⟩
termination_by data.size - i

/-- Draws an entry of the grid of a cursor. -/
def drawEntry (cursor : Cursor) (colors : Array Color) (raster : Raster) (i : Nat) :
    Guarded Raster := do
  let index ← look cursor.indices i
  let color ← look colors index.toNat
  let (y, x) ← divide i cursor.width
  dab raster x y color

/-- Draws the grid of a cursor, entry by entry. -/
def drawGrid (cursor : Cursor) (colors : Array Color) (raster : Raster) : Guarded Raster :=
  (List.range cursor.indices.size).foldlM (drawEntry cursor colors) raster

/-- Draws the image of a file whose pixels are run-length encoded. -/
def runs (h : Header) (e : RunLength) (data : Array UInt8) (colors : Array Color)
    (raster : Raster) : Guarded Raster := do
  let cursor ← Cursor.start h
  let start ← pixelStart h data
  let cursor ← cursor.follow e data start
  drawGrid cursor colors raster

/-- A number that the encoding has room for is one of the palette. -/
theorem toNat_lt_of_fits {index : UInt8} (hindex : e.Fits index) : index.toNat < 2 ^ e.bits := by
  cases e with
  | rle8 => exact index.toNat_lt
  | rle4 => exact UInt8.lt_iff_toNat_lt.mp hindex

/-- The black dots of a canvas. -/
def canvasDots (h : Header) (colors : Array Color) (c : Canvas) (x y : Nat) : Bool :=
  (paletteColor colors (c.cell x (h.storedRow y)).toNat).isDark

/-- An entry is drawn with a number that is in the palette. -/
theorem drawEntry_eq {colors : Array Color} (sound : h.Sound profile data)
    (covers : Covers colors h.bits) (hbits : e.bits = h.bits) (fitting : c.Fitting h e)
    {b : Bitmap} (hb : h.Sized b) (hi : i < h.width * h.height) :
    drawEntry (c.cursor h) colors b.raster i
        = .ok (b.setIf (canvasDots h colors c) (i % h.width, i / h.width)).raster
      ∧ h.Sized (b.setIf (canvasDots h colors c) (i % h.width, i / h.width)) := by
  obtain ⟨hpos, -, -⟩ := limits_of_sound sound
  have hindex : look (c.cursor h).indices i
      = .ok (c.cell (i % h.width) (h.storedRow (i / h.width))) := by
    rw [look_eq (by rwa [size_indices])]
    exact congrArg Except.ok (Array.getElem_ofFn _)
  have hlt : (c.cell (i % h.width) (h.storedRow (i / h.width))).toNat < colors.size := by
    rw [covers.size (by rw [← hbits]; cases e <;> decide), ← hbits]
    exact toNat_lt_of_fits (fitting.fits _)
  rw [drawEntry, hindex, ok_bind, look_of_lt .black hlt, ok_bind]
  show (divide i h.width >>= _) = _ ∧ _
  rw [divide_of_pos i hpos, ok_bind]
  exact dab_eq sound hb (Nat.mod_lt i hpos) (Nat.div_lt_of_lt_mul hi) (covers.fits _) rfl

/-- **A GRID IS DRAWN WITHIN THE IMAGE**, every dot of it. -/
theorem drawGrid_eq {colors : Array Color} (sound : h.Sound profile data)
    (covers : Covers colors h.bits) (hbits : e.bits = h.bits) (fitting : c.Fitting h e) :
    drawGrid (c.cursor h) colors (Bitmap.blank h.width h.height).raster
      = .ok (Bitmap.ofDots h.width h.height (canvasDots h colors c)).raster := by
  have hevery : ∀ x y, x < h.width → y < h.height →
      (x, y) ∈ (List.range (h.width * h.height)).map fun i => (i % h.width, i / h.width) := by
    intro x y hx hy
    refine List.mem_map.mpr ⟨y * h.width + x, List.mem_range.mpr (rowMajor_lt hx hy), ?_⟩
    rw [Nat.mul_comm, Nat.mul_add_mod, Nat.mul_add_div (Nat.zero_lt_of_lt hx),
      Nat.mod_eq_of_lt hx, Nat.div_eq_of_lt hx, Nat.add_zero]
  have hdrawn := foldlM_eq Bitmap.raster h.Sized
    (fun b hb i hi => drawEntry_eq sound covers hbits fitting hb (List.mem_range.mp hi))
    (b := Bitmap.blank h.width h.height) ⟨rfl, rfl⟩
  rw [drawGrid, size_indices, ← Bitmap.foldl_setIf (canvasDots h colors c) hevery, List.foldl_map]
  exact hdrawn.1

/-- **AN IMAGE WITH RUN LENGTHS IS READ WITHIN THE FILE**, and is the one that the
    file describes.  Or the column of the cursor outgrows its type, in a file of more
    than 2⁵⁸ bytes. -/
theorem runs_eq {colors : Array Color} (sound : h.Sound profile data)
    (covers : Covers colors h.bits) (hrun : h.runLength = some e) (size : data.size < 2 ^ 63) :
    runs h e data colors (Bitmap.blank h.width h.height).raster
        = lift ((h.runLengthImage e data colors).map Bitmap.raster)
      ∨ runs h e data colors (Bitmap.blank h.width h.height).raster = .error .overflow
        ∧ 2 ^ 58 < data.size := by
  rw [runs, start_eq sound, ok_bind, pixelStart_eq, Header.runLengthImage]
  cases hstart : h.pixelStart data with
  | error fault => exact .inl rfl
  | ok start =>
      have hle := le_of_pixelStart hstart
      have ready : (Canvas.blank h.width h.height).Ready h e start :=
        ⟨fitting_blank h e, sound.height_pos, by show 4 * 0 ≤ _; omega⟩
      rw [lift_ok, ok_bind]
      rcases follow_eq sound size ready (by omega) with ⟨hok, fitting⟩ | ⟨hstop, hlong⟩
      · rw [hok, ok_bind, drawGrid_eq sound covers (sound.runLength e hrun) fitting]
        exact .inl rfl
      · rw [hstop]
        exact .inr ⟨rfl, hlong⟩

end Guarded

end ReceiptPrinter
