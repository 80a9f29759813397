import Mathlib.Algebra.Group.Int.Defs
import Mathlib.Algebra.Group.Nat.Defs
import ReceiptPrinter.Image.BmpHeader
import ReceiptPrinter.Proofs.Image.Bits

/-! # Guards — indexing and arithmetic that can stop

    The decoder of BMP files counts without bound, and takes a byte that the file
    does not have for zero.  A machine does neither.  An index that its array does
    not have, and a result that its type does not have, are the end of the program.

    Here such a step is one that may stop (`Guarded`), and each guard comes with
    the condition under which it lets a value through.  Sums and products of
    unsigned numbers only grow, so their last result is the one to look at.  A
    loop whose turns all come through is a fold (`Guarded.foldlM_eq`). -/

namespace ReceiptPrinter

/-- What can end a run before it has a result. -/
inductive Stop where
  /-- An index that its array does not have. -/
  | outside
  /-- An operation without a result in its type. -/
  | overflow
  /-- The file is refused. -/
  | refused (fault : BitmapFault)
deriving DecidableEq, Repr

/-- A computation that may stop. -/
abbrev Guarded (α : Type) := Except Stop α

namespace Guarded

variable {α β σ : Type}

@[simp] theorem ok_bind (a : α) (f : α → Guarded β) : (Except.ok a : Guarded α) >>= f = f a := rfl

/-! ## Guards -/

/-- An entry of an array. -/
def look (xs : Array α) (i : Nat) : Guarded α :=
  match xs[i]? with
  | some x => .ok x
  | none => .error .outside

/-- An array with one entry replaced. -/
def replace (xs : Array α) (i : Nat) (x : α) : Guarded (Array α) :=
  if i < xs.size then .ok (xs.setIfInBounds i x) else .error .outside

/-- The entries from one index up to another. -/
def part (xs : Array α) (start stop : Nat) : Guarded (Array α) :=
  if start ≤ stop ∧ stop ≤ xs.size then .ok (xs.extract start stop) else .error .outside

/-- An unsigned number of so many bits. -/
def fits (bits n : Nat) : Guarded Nat :=
  if n < 2 ^ bits then .ok n else .error .overflow

/-- A signed number of 64 bits. -/
def fitsSigned (n : Int) : Guarded Int :=
  if -2 ^ 63 ≤ n ∧ n < 2 ^ 63 then .ok n else .error .overflow

/-- The difference of two unsigned numbers. -/
def minus (m n : Nat) : Guarded Nat :=
  if n ≤ m then .ok (m - n) else .error .overflow

/-- A byte shifted to the right. -/
def shift (byte : UInt8) (amount : Nat) : Guarded UInt8 :=
  if amount < 8 then .ok (byte >>> UInt8.ofNat amount) else .error .overflow

/-- A quotient and its remainder. -/
def divide (m n : Nat) : Guarded (Nat × Nat) :=
  if 0 < n then .ok (m / n, m % n) else .error .overflow

/-- Refuses the file for a fault, if there is one. -/
def refuse? : Option BitmapFault → Guarded Unit
  | some fault => .error (.refused fault)
  | none => .ok ()

/-- Refuses the file if a condition holds. -/
def refuseIf (condition : Bool) (fault : BitmapFault) : Guarded Unit :=
  refuse? (Bmp.faultIf condition fault)

/-- A computation that stops only to refuse the file. -/
def lift (x : Except BitmapFault α) : Guarded α :=
  x.mapError .refused

/-! ## What comes through -/

theorem look_eq {xs : Array α} {i : Nat} (h : i < xs.size) : look xs i = .ok xs[i] := by
  rw [look, Array.getElem?_eq_getElem h]

theorem look_of_lt {xs : Array α} {i : Nat} (default : α) (h : i < xs.size) :
    look xs i = .ok (xs.getD i default) := by
  rw [look_eq h, Array.getD_eq_getD_getElem?, Array.getElem?_eq_getElem h]
  rfl

theorem replace_of_lt {xs : Array α} {i : Nat} (h : i < xs.size) (x : α) :
    replace xs i x = .ok (xs.setIfInBounds i x) :=
  if_pos h

theorem part_of_le {xs : Array α} {start stop : Nat} (h : start ≤ stop) (hstop : stop ≤ xs.size) :
    part xs start stop = .ok (xs.extract start stop) :=
  if_pos ⟨h, hstop⟩

theorem fits_of_lt {bits n : Nat} (h : n < 2 ^ bits) : fits bits n = .ok n :=
  if_pos h

theorem eq_of_fits {bits m n : Nat} (h : fits bits m = .ok n) : m = n := by
  rw [fits] at h
  split at h
  · exact Except.ok.inj h
  · cases h

theorem minus_of_le {m n : Nat} (h : n ≤ m) : minus m n = .ok (m - n) :=
  if_pos h

theorem shift_of_lt (byte : UInt8) {amount : Nat} (h : amount < 8) :
    shift byte amount = .ok (byte >>> UInt8.ofNat amount) :=
  if_pos h

theorem divide_of_pos (m : Nat) {n : Nat} (h : 0 < n) : divide m n = .ok (m / n, m % n) :=
  if_pos h

theorem fitsSigned_of_lt {n : Int} (hl : -2 ^ 63 ≤ n) (h : n < 2 ^ 63) : fitsSigned n = .ok n :=
  if_pos ⟨hl, h⟩

/-- A part of an array has the entries of the array. -/
theorem getD_extract {xs : Array α} {start stop i : Nat} (hi : i < stop - start)
    (hstop : stop ≤ xs.size) (default : α) :
    (xs.extract start stop).getD i default = xs.getD (start + i) default := by
  rw [Array.getD_eq_getD_getElem?, Array.getD_eq_getD_getElem?, Array.getElem?_extract,
    if_pos (by omega)]

/-- An entry that is replaced by what is made of it is modified. -/
theorem setIfInBounds_getD {xs : Array α} {i : Nat} (h : i < xs.size) (default : α) (f : α → α) :
    xs.setIfInBounds i (f (xs.getD i default)) = xs.modify i f := by
  apply Array.ext_getElem?
  intro j
  rw [Array.getElem?_setIfInBounds, Array.getElem?_modify, Array.getD_eq_getD_getElem?, if_pos h]
  split
  next hij =>
    subst hij
    rw [Array.getElem?_eq_getElem h]
    rfl
  · rfl

@[simp] theorem lift_ok (a : α) : lift (.ok a) = .ok a := rfl

/-! ## Loops -/

/-- **A LOOP WHOSE TURNS COME THROUGH IS A FOLD.**  The loop runs on `σ`, and each
    turn does there what `g` does on `β`, as long as the invariant holds. -/
theorem foldlM_eq {f : σ → α → Guarded σ} {g : β → α → β} (shown : β → σ) (Inv : β → Prop)
    {xs : List α} (turn : ∀ b, Inv b → ∀ a ∈ xs, f (shown b) a = .ok (shown (g b a)) ∧ Inv (g b a))
    {b : β} (start : Inv b) :
    xs.foldlM f (shown b) = .ok (shown (xs.foldl g b)) ∧ Inv (xs.foldl g b) := by
  induction xs generalizing b with
  | nil => exact ⟨rfl, start⟩
  | cons a rest ih =>
      obtain ⟨hok, hnext⟩ := turn b start a List.mem_cons_self
      rw [List.foldlM_cons, hok, ok_bind, List.foldl_cons]
      exact ih (fun b hb x hx => turn b hb x (List.mem_cons_of_mem a hx)) hnext

/-- A list of computations that come through is a list of results. -/
theorem mapM_eq {f : α → Guarded β} {g : α → β} {xs : List α}
    (each : ∀ a ∈ xs, f a = .ok (g a)) : xs.mapM f = .ok (xs.map g) := by
  induction xs with
  | nil => rfl
  | cons a rest ih =>
      rw [List.forall_mem_cons] at each
      rw [List.mapM_cons, each.1, ok_bind, ih each.2]
      rfl

end Guarded

/-! ## Dots -/

namespace Bitmap

/-- Makes a dot black if it is one of those that are picked. -/
def setIf (black : Nat → Nat → Bool) (b : Bitmap) (dot : Nat × Nat) : Bitmap :=
  if black dot.1 dot.2 then b.setBlack dot.1 dot.2 else b

/-- **IN WHICHEVER ORDER THE DOTS ARE VISITED**, the image is that of the predicate,
    if none is left out. -/
theorem foldl_setIf {width height : Nat} (black : Nat → Nat → Bool) {dots : List (Nat × Nat)}
    (every : ∀ x y, x < width → y < height → (x, y) ∈ dots) :
    dots.foldl (setIf black) (blank width height) = ofDots width height black := by
  have hdraw : dots.foldl (setIf black) (blank width height)
      = (blank width height).draw (dots.filter fun dot => black dot.1 dot.2) :=
    List.foldl_filter.symm
  rw [hdraw]
  refine eq_of_bits (width_draw _ _) (height_draw _ _) ?_
  intro x y hx hy
  have hy : y < height := hy
  rw [bit_draw (blank width height) _ hx hy, bit_blank, Bool.false_or]
  refine Eq.trans ?_ (bit_ofDots black hx hy).symm
  show decide (x < width ∧ _) = (decide (x < width) && black x y)
  by_cases hxw : x < width
  · simp [hxw, every x y hxw hy]
  · simp [hxw]

/-- Visits the dots of a row, from left to right. -/
def setRow (width : Nat) (black : Nat → Nat → Bool) (b : Bitmap) (y : Nat) : Bitmap :=
  (List.range width).foldl (fun b x => b.setIf black (x, y)) b

theorem foldl_setRow (width height : Nat) (black : Nat → Nat → Bool) :
    (List.range height).foldl (setRow width black) (blank width height)
      = ofDots width height black := by
  have hevery : ∀ x y, x < width → y < height → (x, y) ∈ pixels width height :=
    fun x y hx hy => mem_pixels.mpr ⟨hx, hy⟩
  rw [← foldl_setIf black hevery, pixels, List.foldl_flatMap]
  simp only [List.foldl_map]
  rfl

end Bitmap

/-- A size and the bytes of rows, which may or may not be as many as the size
    says. -/
structure Raster where
  width : Nat
  height : Nat
  data : Array UInt8
deriving DecidableEq

/-- A bitmap without the proof of its size. -/
def Bitmap.raster (b : Bitmap) : Raster where
  width := b.width
  height := b.height
  data := b.data

namespace Raster

open Guarded

/-- A raster without black dots. -/
def blank (width height : Nat) : Guarded Raster := do
  let size ← fits 64 (rowBytes width * height)
  .ok ⟨width, height, Array.replicate size 0⟩

/-- Makes a dot black; one outside the image is left out. -/
def setBlack (r : Raster) (x y : Nat) : Guarded Raster :=
  if r.width ≤ x ∨ r.height ≤ y then .ok r
  else do
    let place ← fits 64 (y * rowBytes r.width + x / 8)
    let byte ← look r.data place
    let bit ← shift 0x80 (x % 8)
    let data ← replace r.data place (byte ||| bit)
    .ok { r with data }

theorem blank_eq {width height : Nat} (h : rowBytes width * height < 2 ^ 64) :
    blank width height = .ok (Bitmap.blank width height).raster := by
  rw [blank, fits_of_lt h]
  rfl

/-- A dot of a bitmap can be made black: its byte is there. -/
theorem setBlack_eq (b : Bitmap) (size : b.data.size < 2 ^ 64) (x y : Nat) :
    b.raster.setBlack x y = .ok (b.setBlack x y).raster := by
  rw [setBlack, Bitmap.setBlack]
  by_cases hin : x < b.width ∧ y < b.height
  · have hplace : b.place x y < b.data.size :=
      Bitmap.place_lt (Nat.lt_of_lt_of_le hin.1 (Bitmap.le_rowBytes b.width)) hin.2
    have hfits : fits 64 (y * rowBytes b.width + x / 8) = .ok (b.place x y) :=
      fits_of_lt (Nat.lt_trans hplace size)
    rw [if_neg (by show ¬ (b.width ≤ x ∨ b.height ≤ y); omega), if_pos hin]
    show (fits 64 (y * rowBytes b.width + x / 8) >>= _) = _
    rw [hfits, ok_bind]
    show (look b.data (b.place x y) >>= _) = _
    rw [look_of_lt 0 hplace, ok_bind, shift_of_lt _ (Nat.mod_lt x (by decide)), ok_bind]
    show (replace b.data _ _ >>= _) = _
    rw [replace_of_lt hplace, ok_bind]
    exact congrArg (fun data => Except.ok (Raster.mk b.width b.height data))
      (setIfInBounds_getD hplace 0 (· ||| dotBit x))
  · rw [if_pos (by show b.width ≤ x ∨ b.height ≤ y; omega), if_neg hin]

end Raster

end ReceiptPrinter
