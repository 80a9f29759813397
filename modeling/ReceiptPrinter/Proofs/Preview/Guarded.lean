import Mathlib.Data.List.TakeWhile
import ReceiptPrinter.Proofs.Image.Guarded.Basic
import ReceiptPrinter.Proofs.Outcomes
import ReceiptPrinter.Proofs.Preview.Scanning

/-! # A guarded reader — no bytes make a printer index astray

    The reader of a print job takes a byte that is not there for the end of the
    bytes.  A machine keeps the job in an array and looks into it by number, with
    numbers that it has read in the job itself.  `Guarded.feed` is the reader in
    this form: every index and every slice is behind a guard, and so is every sum
    with a length that the job announces. -/

namespace ReceiptPrinter

/-- A scan of so many bytes is another one, or a piece that takes all of them where
    the other piece announces one byte more. -/
def Scan.Ends (room : Nat) (s t : Scan) : Prop :=
  s = t ∨ ∃ event, s = .piece room event ∧ t = .piece (room + 1) event

namespace Guarded

/-! ## The reader with guards -/

/-- The number between two bounds that is nearest to another; the bounds must not
    be the wrong way round. -/
def clamp (n least greatest : Nat) : Guarded Nat :=
  if least ≤ greatest then .ok (max least (min n greatest)) else .error .overflow

/-- A command of a fixed size without visible effect. -/
def fixed (size : Nat) (rest : Array UInt8) : Scan :=
  if rest.size < size then .truncated else .piece size .skip

/-- The commands after `ESC` that are known to have one parameter. -/
def knownEscapes : List UInt8 :=
  [0x45, 0x2D, 0x61, 0x64, 0x4D, 0x56, 0x21, 0x52, 0x74, 0x20, 0x33, 0x47, 0x4A]

/-- Reads a command that begins with `ESC`. -/
def escape (rest : Array UInt8) : Guarded Scan :=
  match rest[1]? with
  | none => .ok .truncated
  | some code =>
    if code = 0x40 then .ok (.piece 2 .reset)
    else if code = 0x32 then .ok (.piece 2 .skip)
    else if code = 0x0A then .ok (.piece 2 .lineEnd)
    else if code = 0x24 ∨ code = 0x5C ∨ code = 0x42 then .ok (fixed 4 rest)
    else if code = 0x70 then .ok (fixed 5 rest)
    else match rest[2]? with
      | some n =>
        match Event.ofEscape code n with
        | some event => .ok (.piece 3 event)
        | none => .ok (.piece 2 .skip)
      | none => if knownEscapes.contains code then .ok .truncated else .ok (.piece 2 .skip)

/-- Reads a cut. -/
def cut (rest : Array UInt8) : Guarded Scan :=
  match rest[2]? with
  | none => .ok .truncated
  | some mode =>
    if mode = 0 ∨ mode = 0x30 then .ok (.piece 3 (.cut true))
    else if mode = 1 ∨ mode = 0x31 then .ok (.piece 3 (.cut false))
    else if mode = 0x41 ∨ mode = 0x42 then
      if rest.size < 4 then .ok .truncated else .ok (.piece 4 (.cut (mode = 0x41)))
    else .ok (.piece 3 .skip)

/-- Reads a bar code.  One whose NUL is missing takes all the bytes. -/
def barcode (rest : Array UInt8) : Guarded Scan :=
  match rest[2]? with
  | none => .ok .truncated
  | some kind =>
    if kind ≤ 6 then do
      let body ← part rest 3 rest.size
      match body.toList.findIdx? (· == 0) with
      | some stop => do
        let data ← part body 0 stop
        .ok (.piece (3 + stop + 1) (.barcode kind data.toList))
      | none => .ok (.piece rest.size (.barcode kind body.toList))
    else match rest[3]? with
      | none => .ok .truncated
      | some length => do
        let size ← fits 64 (4 + length.toNat)
        let data ← part rest 4 (min size rest.size)
        .ok (.piece size (.barcode kind data.toList))

/-- Reads a function of `GS (`. -/
def function (rest : Array UInt8) : Guarded Scan :=
  if rest.size < 5 then .ok .truncated
  else do
    let group ← look rest 2
    let low ← look rest 3
    let high ← look rest 4
    let size ← fits 64 (5 + Event.wordValue low high)
    let parameters ← part rest 5 (min size rest.size)
    .ok (.piece size (Event.ofFunction group parameters.toList))

/-- Reads a raster image. -/
def raster (rest : Array UInt8) : Guarded Scan :=
  if rest.size < 8 then .ok .truncated
  else do
    let form ← look rest 2
    if form ≠ 0x30 then .ok (.piece 3 .skip)
    else do
      let widthLow ← look rest 4
      let widthHigh ← look rest 5
      let heightLow ← look rest 6
      let heightHigh ← look rest 7
      let area ← fits 64 (Event.wordValue widthLow widthHigh * Event.wordValue heightLow heightHigh)
      let size ← fits 64 (8 + area)
      .ok (.piece size .image)

/-- Reads a command that begins with `GS`. -/
def group (rest : Array UInt8) : Guarded Scan :=
  match rest[1]? with
  | none => .ok .truncated
  | some code =>
    if code = 0x21 then
      match rest[2]? with
      | some n => .ok (.piece 3 (.scale (n.toNat % 16 + 1) (n.toNat / 16 + 1)))
      | none => .ok .truncated
    else if code = 0x42 then
      match rest[2]? with
      | some n => .ok (.piece 3 (.invert (n % 2 = 1)))
      | none => .ok .truncated
    else if code = 0x56 then cut rest
    else if code = 0x6B then barcode rest
    else if code = 0x28 then function rest
    else if code = 0x76 then raster rest
    else if Event.silentGroups.contains code then .ok (fixed 3 rest)
    else if code = 0x4C then .ok (fixed 4 rest)
    else .ok (.piece 2 .skip)

/-- Reads a command that begins with `DLE`. -/
def device (rest : Array UInt8) : Guarded Scan :=
  match rest[1]? with
  | none => .ok .truncated
  | some code =>
    if code = 0x04 ∨ code = 0x05 then .ok (fixed 3 rest) else .ok (.piece 2 .skip)

/-- Reads what stands at the start of some bytes.  A character of several bytes is
    looked for with care, so its bytes need no guard. -/
def scan (rest : Array UInt8) : Guarded Scan := do
  let lead ← look rest 0
  if lead = 0x1B then escape rest
  else if lead = 0x1D then group rest
  else if lead = 0x10 then device rest
  else .ok (Event.scanText lead (rest.toList.drop 1))

/-- One turn of the reader at a place of a job: what it reads there, and how many
    bytes it takes. -/
def turn (data : Array UInt8) (i : Nat) : Guarded (Scan × Nat) := do
  let rest ← part data i data.size
  let s ← scan rest
  match s with
  | .piece size _ => do
    let taken ← clamp size 1 rest.size
    .ok (s, taken)
  | .truncated => .ok (s, rest.size)

theorem le_of_clamp {n least greatest m : Nat} (h : clamp n least greatest = .ok m) :
    least ≤ m := by
  rw [clamp] at h
  split at h
  · cases h
    exact Nat.le_max_left _ _
  · cases h

/-- A turn takes at least one byte, if there are any. -/
theorem pos_of_turn {data : Array UInt8} {i taken : Nat} {s : Scan} (hi : i < data.size)
    (h : turn data i = .ok (s, taken)) : 0 < taken := by
  rw [turn] at h
  obtain ⟨rest, hrest, h⟩ := bind_eq_ok h
  obtain ⟨s', hs, h⟩ := bind_eq_ok h
  cases s' with
  | piece size event =>
      obtain ⟨m, hm, h⟩ := bind_eq_ok h
      cases h
      exact le_of_clamp hm
  | truncated =>
      cases h
      rw [part_of_le (Nat.le_of_lt hi) (Nat.le_refl _)] at hrest
      cases hrest
      rw [Array.size_extract]
      omega

/-- Feeds a printer from a place of a job on.  The place at which it ends is the
    number of bytes that it took. -/
def feedFrom (data : Array UInt8) (p : TextPrinter) (i : Nat) : Guarded (TextPrinter × Nat) :=
  if hi : i < data.size then
    match h : turn data i with
    | .error stop => .error stop
    | .ok (s, taken) =>
      have := pos_of_turn hi h
      feedFrom data (p.after s) (i + taken)
  else .ok (p, i)
termination_by data.size - i

/-- Feeds a printer with a job. -/
def feed (p : TextPrinter) (data : Array UInt8) : Guarded (TextPrinter × Nat) :=
  feedFrom data p 0

/-! ## Fixed sizes -/

section

variable (b c : UInt8) (rest : Bytes)

theorem fixed_eq (size : Nat) (hsize : 2 ≤ size) :
    fixed size (b :: rest).toArray = Event.silent size rest := by
  rw [fixed, Event.silent, List.size_toArray, List.length_cons]
  have hiff : rest.length + 1 < size ↔ (rest.drop (size - 2)).isEmpty = true := by
    rw [List.isEmpty_iff, List.drop_eq_nil_iff]
    omega
  simp only [hiff]

/-- A command after `ESC` is known just if it means something with a parameter. -/
theorem knownEscapes_contains (code m : UInt8) :
    knownEscapes.contains code = (Event.ofEscape code m).isSome := by
  have split : knownEscapes = [0x45, 0x2D, 0x61, 0x64] ++ Event.silentEscapes := rfl
  rw [Event.ofEscape]
  by_cases h1 : code = 0x45
  · rw [if_pos h1, h1]
    rfl
  by_cases h2 : code = 0x2D
  · rw [if_neg h1, if_pos h2, h2]
    rfl
  by_cases h3 : code = 0x61
  · rw [if_neg h1, if_neg h2, if_pos h3, h3]
    rfl
  by_cases h4 : code = 0x64
  · rw [if_neg h1, if_neg h2, if_neg h3, if_pos h4, h4]
    rfl
  rw [if_neg h1, if_neg h2, if_neg h3, if_neg h4, split]
  simp only [List.cons_append, List.nil_append, List.contains_cons, beq_eq_false_iff_ne.mpr h1,
    beq_eq_false_iff_ne.mpr h2, beq_eq_false_iff_ne.mpr h3, beq_eq_false_iff_ne.mpr h4,
    Bool.false_or]
  cases Event.silentEscapes.contains code <;> rfl

theorem escape_eq : escape (b :: rest).toArray = .ok (Event.scanEscape rest) := by
  cases rest with
  | nil => rfl
  | cons code rest =>
      have hcode : (b :: code :: rest).toArray[1]? = some code := rfl
      rw [escape, hcode, Event.scanEscape.eq_def]
      dsimp only
      rw [fixed_eq b _ 4 (by decide), fixed_eq b _ 5 (by decide)]
      cases rest with
      | nil =>
          have hn : ([b, code] : Bytes).toArray[2]? = none := rfl
          rw [hn]
          simp only [knownEscapes_contains code 0, apply_ite Except.ok]
      | cons n rest =>
          have hn : (b :: code :: n :: rest).toArray[2]? = some n := rfl
          rw [hn]
          dsimp only
          cases Event.ofEscape code n <;> simp only [apply_ite Except.ok]

theorem device_eq : device (b :: rest).toArray = .ok (Event.scanDevice rest) := by
  cases rest with
  | nil => rfl
  | cons code rest =>
      have hcode : (b :: code :: rest).toArray[1]? = some code := rfl
      rw [device, hcode, Event.scanDevice]
      dsimp only
      rw [fixed_eq b _ 3 (by decide)]
      simp only [apply_ite Except.ok]

theorem cut_eq : cut (b :: c :: rest).toArray = .ok (Event.scanCut rest) := by
  cases rest with
  | nil => rfl
  | cons mode rest =>
      have hmode : (b :: c :: mode :: rest).toArray[2]? = some mode := rfl
      have hsize : (b :: c :: mode :: rest).toArray.size < 4 ↔ rest.isEmpty = true := by
        rw [List.size_toArray, List.isEmpty_iff, ← List.length_eq_zero_iff]
        simp only [List.length_cons]
        omega
      rw [cut, hmode, Event.scanCut.eq_def]
      dsimp only
      simp only [hsize, apply_ite Except.ok]

/-! ## Announced lengths -/

/-- The end of an array is the rest of its list. -/
theorem part_toArray (bytes : Bytes) {start : Nat} (h : start ≤ bytes.length) :
    part bytes.toArray start bytes.toArray.size = .ok (bytes.drop start).toArray := by
  rw [part_of_le (by rwa [List.size_toArray]) (Nat.le_refl _), List.extract_toArray,
    List.size_toArray, List.extract_eq_take_drop,
    List.take_of_length_le (Nat.le_of_eq List.length_drop)]

/-- A slice of an array that ends within it. -/
theorem part_min_toArray (bytes : Bytes) (length : Nat) {start : Nat}
    (h : start ≤ bytes.length) :
    part bytes.toArray start (min (start + length) bytes.toArray.size)
      = .ok ((bytes.drop start).take length).toArray := by
  rw [part_of_le (by rw [List.size_toArray]; omega) (Nat.min_le_right _ _), List.extract_toArray,
    List.size_toArray, List.extract_eq_take_drop]
  congr 2
  rw [List.take_eq_take_iff, List.length_drop]
  omega

theorem wordValue_lt (low high : UInt8) : Event.wordValue low high < 65536 := by
  have := low.toNat_lt
  have := high.toNat_lt
  rw [Event.wordValue]
  omega

theorem function_eq : function (b :: c :: rest).toArray = .ok (Event.scanFunction rest) := by
  match rest with
  | [] => rfl
  | [_] => rfl
  | [_, _] => rfl
  | g :: low :: high :: rest =>
      have hsize : ¬ (b :: c :: g :: low :: high :: rest).toArray.size < 5 := by
        simp only [List.size_toArray, List.length_cons]
        omega
      have hlt := wordValue_lt low high
      have hlong : 5 ≤ (b :: c :: g :: low :: high :: rest).length := by
        simp only [List.length_cons]
        omega
      have hparameters := part_min_toArray _ (Event.wordValue low high) hlong
      rw [function, if_neg hsize]
      show (fits 64 (5 + Event.wordValue low high) >>= _) = _
      rw [fits_of_lt (by omega), ok_bind, hparameters]
      rw [Event.scanFunction, Nat.add_comm _ 5]
      rfl

theorem raster_eq : raster (b :: c :: rest).toArray = .ok (Event.scanRaster rest) := by
  match rest with
  | [] => rfl
  | [_] => rfl
  | [_, _] => rfl
  | [_, _, _] => rfl
  | [_, _, _, _] => rfl
  | [_, _, _, _, _] => rfl
  | form :: m :: wl :: wh :: hl :: hh :: rest =>
      have hsize : ¬ (b :: c :: form :: m :: wl :: wh :: hl :: hh :: rest).toArray.size < 8 := by
        simp only [List.size_toArray, List.length_cons]
        omega
      have hwidth := wordValue_lt wl wh
      have hheight := wordValue_lt hl hh
      have harea := Nat.mul_le_mul (Nat.le_of_lt hwidth) (Nat.le_of_lt hheight)
      rw [raster, if_neg hsize, Event.scanRaster]
      show (if form ≠ 0x30 then _
        else fits 64 (Event.wordValue wl wh * Event.wordValue hl hh) >>= _) = _
      rw [fits_of_lt (by omega), ok_bind, fits_of_lt (by omega), ok_bind, apply_ite Except.ok]
      exact ite_not _ _ _

/-- What stands before the first NUL, if there is one. -/
theorem takeWhile_of_findIdx? {data : Bytes} {stop : Nat}
    (h : data.findIdx? (· == 0) = some stop) :
    stop < data.length ∧ data.takeWhile (· ≠ 0) = data.take stop := by
  obtain ⟨hlt, rfl⟩ := List.findIdx?_eq_some_iff_findIdx_eq.mp h
  refine ⟨hlt, ?_⟩
  rw [List.takeWhile_eq_take_findIdx_not]
  congr
  funext x
  by_cases hx : x = 0 <;> simp [hx]

theorem takeWhile_of_no_findIdx? {data : Bytes} (h : data.findIdx? (· == 0) = none) :
    data.takeWhile (· ≠ 0) = data := by
  rw [List.takeWhile_eq_self_iff]
  intro x hx
  simpa using List.findIdx?_eq_none_iff.mp h x hx

/-- A bar code is read with its guards in place.  Without its NUL it takes all the
    bytes there are. -/
theorem barcode_ends : ∃ s, barcode (b :: c :: rest).toArray = .ok s
    ∧ s.Ends (rest.length + 2) (Event.scanBarcode rest) := by
  cases rest with
  | nil => exact ⟨.truncated, rfl, .inl rfl⟩
  | cons kind rest =>
      have hkind : (b :: c :: kind :: rest).toArray[2]? = some kind := rfl
      rw [barcode, hkind, Event.scanBarcode.eq_def]
      dsimp only
      by_cases hold : kind ≤ 6
      · have hbody : part (b :: c :: kind :: rest).toArray 3 (b :: c :: kind :: rest).toArray.size
            = .ok rest.toArray :=
          part_toArray (b :: c :: kind :: rest) (by simp only [List.length_cons]; omega)
        rw [if_pos hold, if_pos hold, hbody, ok_bind]
        dsimp only
        cases hstop : rest.findIdx? (· == 0) with
        | some stop =>
            obtain ⟨hlt, hdata⟩ := takeWhile_of_findIdx? hstop
            have hpart : part rest.toArray 0 stop = .ok (rest.take stop).toArray := by
              rw [part_of_le (Nat.zero_le _) (by rw [List.size_toArray]; omega)]
              simp
            refine ⟨.piece (stop + 4) (.barcode kind (rest.take stop)), ?_, .inl ?_⟩
            · dsimp only
              rw [hpart, ok_bind]
              congr 2
              omega
            · rw [hdata, List.length_take, Nat.min_eq_left (Nat.le_of_lt hlt)]
        | none =>
            refine ⟨_, rfl, .inr ⟨_, rfl, ?_⟩⟩
            rw [takeWhile_of_no_findIdx? hstop]
            rfl
      · rw [if_neg hold, if_neg hold]
        cases rest with
        | nil => exact ⟨.truncated, rfl, .inl rfl⟩
        | cons length rest =>
            have hlength : (b :: c :: kind :: length :: rest).toArray[3]? = some length := rfl
            have hlong : 4 ≤ (b :: c :: kind :: length :: rest).length := by
              simp only [List.length_cons]
              omega
            have hdata := part_min_toArray _ length.toNat hlong
            have hlt := length.toNat_lt
            rw [hlength]
            refine ⟨.piece (length.toNat + 4) (.barcode kind (rest.take length.toNat)), ?_,
              .inl rfl⟩
            dsimp only
            rw [fits_of_lt (by omega), ok_bind, hdata, ok_bind, Nat.add_comm 4]
            rfl

/-- A command that begins with `GS` is read with its guards in place. -/
theorem group_ends : ∃ s, group (b :: rest).toArray = .ok s
    ∧ s.Ends (rest.length + 1) (Event.scanGroup rest) := by
  cases rest with
  | nil => exact ⟨.truncated, rfl, .inl rfl⟩
  | cons code rest =>
      have hcode : (b :: code :: rest).toArray[1]? = some code := rfl
      by_cases hbarcode : code = 0x6B
      · subst hbarcode
        exact barcode_ends b 0x6B rest
      · refine ⟨_, ?_, .inl rfl⟩
        rw [group, hcode, Event.scanGroup.eq_def]
        dsimp only
        rw [if_neg hbarcode, if_neg hbarcode, cut_eq, function_eq, raster_eq,
          fixed_eq b _ 3 (by decide), fixed_eq b _ 4 (by decide)]
        simp only [apply_ite Except.ok]
        cases rest <;> rfl

/-- Whatever stands at the start of some bytes is read with all guards in place. -/
theorem scan_ends : ∃ s, scan (b :: rest).toArray = .ok s
    ∧ s.Ends (rest.length + 1) (Event.scan b rest) := by
  have hlead : look (b :: rest).toArray 0 = .ok b := rfl
  rw [scan, hlead, ok_bind, Event.scan]
  by_cases hesc : b = 0x1B
  · rw [if_pos hesc, if_pos hesc]
    exact ⟨_, escape_eq b rest, .inl rfl⟩
  by_cases hgs : b = 0x1D
  · rw [if_neg hesc, if_neg hesc, if_pos hgs, if_pos hgs]
    exact group_ends b rest
  by_cases hdle : b = 0x10
  · rw [if_neg hesc, if_neg hesc, if_neg hgs, if_neg hgs, if_pos hdle, if_pos hdle]
    exact ⟨_, device_eq b rest, .inl rfl⟩
  · rw [if_neg hesc, if_neg hesc, if_neg hgs, if_neg hgs, if_neg hdle, if_neg hdle]
    exact ⟨_, rfl, .inl rfl⟩

end

end Guarded

end ReceiptPrinter
