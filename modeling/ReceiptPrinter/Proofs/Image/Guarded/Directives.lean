import ReceiptPrinter.Proofs.Image.Guarded.Basic
import ReceiptPrinter.Proofs.Image.Painting
import ReceiptPrinter.Proofs.Outcomes

/-! # Guarded directives — run-length data by their places in a file

    A list of bytes that is at its end cannot be read on.  The decoder has the whole
    file and the place that it is at, and the place goes where the data send it:
    literals that the file breaks off take it up to 256 bytes past the end.  Each
    read is behind a comparison of its own, and `Guarded.next?_eq` says that they
    are the right ones: a directive is read in the file just as it is in the bytes
    that are left, and what is left after it is where the place has gone. -/

namespace ReceiptPrinter

/-- An index of a byte that stands for several in turn: the byte itself, or one of
    its two halves. -/
def RunLength.inTurn (e : RunLength) (byte : UInt8) (k : Nat) : UInt8 :=
  match e with
  | .rle8 => byte
  | .rle4 => if k % 2 = 0 then byte >>> 4 else byte &&& 0x0F

/-- How many bytes a literal index is behind the first one. -/
def RunLength.literalOffset (e : RunLength) (k : Nat) : Nat :=
  match e with
  | .rle8 => k
  | .rle4 => k / 2

namespace Guarded

variable {data : Array UInt8} {e : RunLength}

/-- So many literal indices, the first of them with the number `k`.  They end where
    the file does. -/
def literals (e : RunLength) (data : Array UInt8) (i k : Nat) : Nat → Guarded (List UInt8)
  | 0 => .ok []
  | count + 1 => do
    let place ← fits 64 (i + e.literalOffset k)
    match data[place]? with
    | none => .ok []
    | some byte =>
      let rest ← literals e data i (k + 1) count
      .ok (e.inTurn byte k :: rest)

/-- A directive that begins with a zero, given the byte behind it and the place
    behind both. -/
def escape? (e : RunLength) (data : Array UInt8) (i : Nat) (value : UInt8) :
    Guarded (Option (Directive × Nat)) := do
  match value with
  | 0 => .ok (some (.endOfLine, i))
  | 1 => .ok (some (.endOfImage, i))
  | 2 =>
    let second ← fits 64 (i + 1)
    if data.size ≤ second then .ok none
    else
      let columns ← look data i
      let rows ← look data second
      let i ← fits 64 (i + 2)
      .ok (some (.delta columns rows, i))
  | n =>
    let indices ← literals e data i 0 n.toNat
    let size := e.literalBytes n.toNat
    let i ← fits 64 (i + (size + size % 2))
    .ok (some (.literal indices, i))

/-- The directive at a place of the file, and the place behind it. -/
def next? (e : RunLength) (data : Array UInt8) (i : Nat) : Guarded (Option (Directive × Nat)) := do
  let second ← fits 64 (i + 1)
  if data.size ≤ second then .ok none
  else
    let count ← look data i
    let value ← look data second
    let i ← fits 64 (i + 2)
    if 0 < count then .ok (some (.run count value, i)) else escape? e data i value

theorem le_of_escape? {i j : Nat} {value : UInt8} {d : Directive}
    (h : escape? e data i value = .ok (some (d, j))) : i ≤ j := by
  unfold escape? at h
  split at h
  · cases h
    exact Nat.le_refl i
  · cases h
    exact Nat.le_refl i
  · obtain ⟨second, -, h⟩ := bind_eq_ok h
    split at h
    · cases h
    · obtain ⟨columns, -, h⟩ := bind_eq_ok h
      obtain ⟨rows, -, h⟩ := bind_eq_ok h
      obtain ⟨behind, hbehind, h⟩ := bind_eq_ok h
      obtain rfl := eq_of_fits hbehind
      cases h
      exact Nat.le_add_right i 2
  · obtain ⟨indices, -, h⟩ := bind_eq_ok h
    obtain ⟨behind, hbehind, h⟩ := bind_eq_ok h
    obtain rfl := eq_of_fits hbehind
    cases h
    exact Nat.le_add_right i _

/-- A directive that is read begins in the file, and the place goes on. -/
theorem lt_of_next? {i j : Nat} {d : Directive} (h : next? e data i = .ok (some (d, j))) :
    i < data.size ∧ i < j := by
  obtain ⟨second, hsecond, h⟩ := bind_eq_ok h
  obtain rfl := eq_of_fits hsecond
  split at h
  · cases h
  · obtain ⟨count, -, h⟩ := bind_eq_ok h
    obtain ⟨value, -, h⟩ := bind_eq_ok h
    obtain ⟨behind, hbehind, h⟩ := bind_eq_ok h
    obtain rfl := eq_of_fits hbehind
    split at h
    · cases h
      exact ⟨by omega, by omega⟩
    · have := le_of_escape? h
      exact ⟨by omega, by omega⟩

/-! ## Literals -/

theorem drop_eq_cons {i : Nat} (hi : i < data.size) :
    data.toList.drop i = data[i] :: data.toList.drop (i + 1) := by
  rw [List.drop_eq_getElem_cons (by rwa [Array.length_toList]), Array.getElem_toList]

theorem drop_eq_nil {i : Nat} (hi : data.size ≤ i) : data.toList.drop i = [] :=
  List.drop_eq_nil_of_le (by rwa [Array.length_toList])

theorem inTurn_high (byte : UInt8) (m : Nat) : RunLength.rle4.inTurn byte (2 * m) = byte / 16 := by
  rw [RunLength.inTurn, if_pos (Nat.mul_mod_right 2 m), RunLength.shiftRight_four]

theorem inTurn_low (byte : UInt8) (m : Nat) :
    RunLength.rle4.inTurn byte (2 * m + 1) = byte % 16 := by
  rw [RunLength.inTurn, if_neg (by omega), RunLength.and_fifteen]

/-- Where the file is at its end so are the literals. -/
theorem literals_out {i k : Nat} (count : Nat) (room : i + e.literalOffset k < 2 ^ 64)
    (hout : data.size ≤ i + e.literalOffset k) : literals e data i k (count + 1) = .ok [] := by
  rw [literals, fits_of_lt room, ok_bind, Array.getElem?_eq_none hout]

theorem literals_in {i k : Nat} (count : Nat) (room : i + e.literalOffset k < 2 ^ 64)
    (hin : i + e.literalOffset k < data.size) :
    literals e data i k (count + 1)
      = literals e data i (k + 1) count >>= fun rest =>
          .ok (e.inTurn data[i + e.literalOffset k] k :: rest) := by
  rw [literals, fits_of_lt room, ok_bind, Array.getElem?_eq_getElem hin]

/-- Literals of whole bytes. -/
theorem literals_bytes {i : Nat} (count k : Nat) (room : i + k + count < 2 ^ 64) :
    literals .rle8 data i k count = .ok ((data.toList.drop (i + k)).take count) := by
  induction count generalizing k with
  | zero => rfl
  | succ count ih =>
      have hroom : i + RunLength.rle8.literalOffset k < 2 ^ 64 := by
        show i + k < _
        omega
      by_cases hin : i + k < data.size
      · rw [literals_in count hroom hin, ih (k + 1) (by omega), drop_eq_cons hin]
        rfl
      · rw [literals_out count hroom (Nat.not_lt.mp hin), drop_eq_nil (Nat.not_lt.mp hin)]
        rfl

/-- Literals of half a byte.  The induction goes from one byte to the next, by two
    indices. -/
theorem literals_halves {i : Nat} : ∀ count m : Nat, i + m + count < 2 ^ 64 →
    literals .rle4 data i (2 * m) count
      = .ok ((((data.toList.drop (i + m)).take ((count + 1) / 2)).flatMap
          (RunLength.indicesOf .rle4)).take count)
  | 0, m, _ => rfl
  | count + 1, m, room => by
      have hhigh : RunLength.rle4.literalOffset (2 * m) = m := Nat.mul_div_cancel_left m (by decide)
      have hlow : RunLength.rle4.literalOffset (2 * m + 1) = m :=
        show (2 * m + 1) / 2 = m by omega
      by_cases hin : i + m < data.size
      · rw [literals_in count (by rw [hhigh]; omega) (by rwa [hhigh]), inTurn_high,
          drop_eq_cons hin]
        simp only [hhigh]
        cases count with
        | zero => rfl
        | succ count =>
            have ih := literals_halves (i := i) count (m + 1) (by omega)
            rw [Nat.mul_succ] at ih
            rw [literals_in count (by rw [hlow]; omega) (by rwa [hlow]), inTurn_low]
            simp only [hlow]
            rw [ih, show (count + 1 + 1 + 1) / 2 = (count + 1) / 2 + 1 by omega]
            rfl
      · rw [literals_out count (by rw [hhigh]; omega) (by rw [hhigh]; omega),
          drop_eq_nil (Nat.not_lt.mp hin)]
        simp

/-- **LITERALS ARE THE INDICES OF THE BYTES THAT ARE LEFT.** -/
theorem literals_eq (size : data.size < 2 ^ 63) {i : Nat} (hi : i ≤ data.size) {count : Nat}
    (hcount : count < 256) :
    literals e data i 0 count = .ok
      ((((data.toList.drop i).take (e.literalBytes count)).flatMap e.indicesOf).take count) := by
  cases e with
  | rle8 =>
      rw [literals_bytes count 0 (by omega)]
      show _ = Except.ok
        ((((data.toList.drop i).take count).flatMap fun index => [index]).take count)
      rw [List.flatMap_singleton', List.take_take, Nat.min_self]
      rfl
  | rle4 => exact literals_halves count 0 (by omega)

/-! ## Directives -/

/-- What is known of a directive that was read from one place of a file up to
    another.  Only a move of the cursor takes four bytes at least. -/
structure Taken (e : RunLength) (size i : Nat) (d : Directive) (j : Nat) : Prop where
  inside : i < size
  forward : i < j
  near : j ≤ size + 256
  delta : ∀ columns rows, d = .delta columns rows → i + 4 ≤ j
  literal : ∀ indices, d = .literal indices → ∀ index ∈ indices, e.Fits index

theorem read?_of_short {bytes : Bytes} (h : bytes.length ≤ 1) : Directive.read? e bytes = none := by
  match bytes, h with
  | [], _ => rfl
  | [_], _ =>
      rw [Directive.read?.eq_def]
      split
      case h_8 => rfl
      all_goals
        next k => cases k

theorem read?_delta_of_short {rest : Bytes} (h : rest.length ≤ 1) :
    Directive.read? e (0 :: 2 :: rest) = none := by
  match rest, h with
  | [], _ => rfl
  | [_], _ => rfl

theorem fits_div (value : UInt8) : RunLength.rle4.Fits (value / 16) := by
  have hvalue := value.toNat_lt
  show value / 16 < 16
  rw [UInt8.lt_iff_toNat_lt, UInt8.toNat_div]
  show value.toNat / 16 < 16
  omega

theorem fits_mod (value : UInt8) : RunLength.rle4.Fits (value % 16) :=
  UInt8.mod_lt value (by decide)

/-- The indices in a byte fit. -/
theorem fits_indicesOf (value : UInt8) : ∀ index ∈ e.indicesOf value, e.Fits index := by
  cases e with
  | rle8 => exact fun _ _ => trivial
  | rle4 =>
      intro index hindex
      rcases List.mem_cons.mp hindex with rfl | hindex
      · exact fits_div value
      · rw [List.mem_singleton.mp hindex]
        exact fits_mod value

theorem three_le_toNat {value : UInt8} (h0 : value ≠ 0) (h1 : value ≠ 1) (h2 : value ≠ 2) :
    3 ≤ value.toNat := by
  have h0 : value.toNat ≠ 0 := mt (UInt8.toNat_inj (b := 0)).mp h0
  have h1 : value.toNat ≠ 1 := mt (UInt8.toNat_inj (b := 1)).mp h1
  have h2 : value.toNat ≠ 2 := mt (UInt8.toNat_inj (b := 2)).mp h2
  omega

theorem literalBytes_le (e : RunLength) (value : UInt8) : e.literalBytes value.toNat ≤ 255 := by
  have hvalue := value.toNat_lt
  cases e with
  | rle8 => exact Nat.le_of_lt_succ hvalue
  | rle4 =>
      show (value.toNat + 1) / 2 ≤ 255
      omega

/-- A directive that begins with a zero, at the place `i`. -/
theorem escape?_eq (size : data.size < 2 ^ 63) {i : Nat} (hi : i + 2 ≤ data.size) (value : UInt8) :
    (escape? e data (i + 2) value = .ok none
        ∧ Directive.read? e (0 :: value :: data.toList.drop (i + 2)) = none)
      ∨ ∃ d j, escape? e data (i + 2) value = .ok (some (d, j))
        ∧ Directive.read? e (0 :: value :: data.toList.drop (i + 2)) = some (d, data.toList.drop j)
        ∧ Taken e data.size i d j := by
  unfold escape?
  split
  · exact .inr ⟨.endOfLine, i + 2, rfl, rfl, by omega, by omega, by omega, nofun, nofun⟩
  · exact .inr ⟨.endOfImage, i + 2, rfl, rfl, by omega, by omega, by omega, nofun, nofun⟩
  · rw [fits_of_lt (by omega), ok_bind]
    by_cases hcut : data.size ≤ i + 2 + 1
    · refine .inl ⟨if_pos hcut, read?_delta_of_short ?_⟩
      rw [List.length_drop, Array.length_toList]
      omega
    · have hthird : i + 2 < data.size := by omega
      have hfourth : i + 2 + 1 < data.size := by omega
      rw [if_neg hcut, look_eq hthird, ok_bind, look_eq hfourth, ok_bind,
        fits_of_lt (by omega), ok_bind, drop_eq_cons hthird, drop_eq_cons hfourth]
      refine .inr ⟨_, _, rfl, rfl, by omega, by omega, by omega, ?_, nofun⟩
      exact fun _ _ _ => by omega
  next hnot0 hnot1 hnot2 =>
    have hbytes := literalBytes_le e value
    rw [literals_eq size hi value.toNat_lt, ok_bind]
    dsimp only
    rw [fits_of_lt (by omega), ok_bind]
    refine .inr ⟨_, _, rfl, ?_, by omega, by omega, by omega, nofun, ?_⟩
    · rw [Directive.read?_literal (three_le_toNat hnot0 hnot1 hnot2), List.drop_drop]
    · rintro indices ⟨⟩ index hindex
      obtain ⟨byte, -, hbyte⟩ := List.mem_flatMap.mp (List.mem_of_mem_take hindex)
      exact fits_indicesOf byte index hbyte

/-- **A DIRECTIVE IS READ IN THE FILE AS IN THE BYTES THAT ARE LEFT.** -/
theorem next?_eq (size : data.size < 2 ^ 63) {i : Nat} (hi : i ≤ data.size + 256) :
    (next? e data i = .ok none ∧ Directive.read? e (data.toList.drop i) = none)
      ∨ ∃ d j, next? e data i = .ok (some (d, j))
        ∧ Directive.read? e (data.toList.drop i) = some (d, data.toList.drop j)
        ∧ Taken e data.size i d j := by
  rw [next?, fits_of_lt (by omega), ok_bind]
  by_cases hshort : data.size ≤ i + 1
  · refine .inl ⟨if_pos hshort, read?_of_short ?_⟩
    rw [List.length_drop, Array.length_toList]
    omega
  · have hfirst : i < data.size := by omega
    have hsecond : i + 1 < data.size := by omega
    rw [if_neg hshort, look_eq hfirst, ok_bind, look_eq hsecond, ok_bind, fits_of_lt (by omega),
      ok_bind, drop_eq_cons hfirst, drop_eq_cons hsecond]
    by_cases hrun : 0 < data[i]
    · refine .inr ⟨.run data[i] data[i + 1], i + 2, if_pos hrun,
        Directive.read?_run (UInt8.pos_iff_ne_zero.mp hrun) _ _, ?_⟩
      exact ⟨hfirst, by omega, by omega, nofun, nofun⟩
    · have hzero : data[i] = 0 := Decidable.not_not.mp (mt UInt8.pos_iff_ne_zero.mpr hrun)
      rw [if_neg hrun, hzero]
      exact escape?_eq size (by omega) data[i + 1]

end Guarded

end ReceiptPrinter
