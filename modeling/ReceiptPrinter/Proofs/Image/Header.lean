import ReceiptPrinter.Image.Bmp
import ReceiptPrinter.Proofs.Outcomes

/-! # Headers — what is known of a BMP file that was accepted

    The checks of a header are a list, and the first that fails is the fault of
    the file.  `Header.Sound` is what is left when none fails: all that the rest
    of the decoder may rely on. -/

namespace ReceiptPrinter.Bmp

theorem not_of_faultIf {condition : Bool} {fault : BitmapFault}
    (h : faultIf condition fault = none) : condition = false := by
  cases condition with
  | false => rfl
  | true => cases h

namespace Header

/-- A header that passed all checks. -/
structure Sound (h : Header) (profile : Profile) (data : Array UInt8) : Prop where
  fields : h = Header.fields data
  size : 54 ≤ data.size
  depth : h.bits ∈ depths
  compression : longAt data 30 ≤ 2
  runLength : ∀ e, h.runLength = some e → e.bits = h.bits
  width_pos : 0 < signedAt data 18
  height_pos : 0 < h.height
  width_le : h.width ≤ profile.maxWidth
  height_le : h.height ≤ profile.maxHeight
  payload_le : h.payload ≤ 65535

variable {profile : Profile} {data : Array UInt8} {h : Header}

theorem bits_of_mismatch? (hm : h.mismatch? = none) {e : RunLength} (he : h.runLength = some e) :
    e.bits = h.bits := by
  rw [mismatch?, he, Option.bind_some] at hm
  split at hm
  next heq => exact heq
  · cases hm

/-- **AN ACCEPTED HEADER IS SOUND.** -/
theorem sound_of_read (hread : Header.read profile data = .ok h) : h.Sound profile data := by
  rw [Header.read] at hread
  split at hread
  · cases hread
  next hf =>
    have hc := (firstFault_eq_none_iff _).mp hf
    simp only [Header.checks, List.forall_mem_cons] at hc
    obtain ⟨hsize, -, -, -, hdepth, hcompression, hmismatch, hwidth, hheight, hmaxWidth,
      hmaxHeight, hpayload, -⟩ := hc
    cases hread
    exact {
      fields := rfl
      size := Nat.not_lt.mp (of_decide_eq_false (not_of_faultIf hsize))
      depth := by
        have hd := not_of_faultIf hdepth
        rw [Bool.not_eq_false'] at hd
        exact List.contains_iff_mem.mp hd
      compression := Nat.not_lt.mp (of_decide_eq_false (not_of_faultIf hcompression))
      runLength := fun e he => bits_of_mismatch? hmismatch he
      width_pos := Int.not_le.mp (of_decide_eq_false (not_of_faultIf hwidth))
      height_pos := Nat.pos_of_ne_zero (beq_eq_false_iff_ne.mp (not_of_faultIf hheight))
      width_le := Nat.not_lt.mp (of_decide_eq_false (not_of_faultIf hmaxWidth))
      height_le := Nat.not_lt.mp (of_decide_eq_false (not_of_faultIf hmaxHeight))
      payload_le := Nat.not_lt.mp (of_decide_eq_false (not_of_faultIf hpayload)) }

theorem Sound.width_eq (sound : h.Sound profile data) : (h.width : Int) = signedAt data 18 := by
  have hw := sound.width_pos
  rw [sound.fields]
  show ((signedAt data 18).toNat : Int) = _
  omega

theorem Sound.height_eq (sound : h.Sound profile data) : h.height = (signedAt data 22).natAbs := by
  rw [sound.fields]
  rfl

/-- Without compression there are no run lengths. -/
theorem Sound.runLength_of_plain (sound : h.Sound profile data) (plain : longAt data 30 = 0) :
    h.runLength = none := by
  rw [sound.fields]
  simp only [Header.fields, plain]

/-- The pixels start where the header says. -/
theorem start_of_pixelStart {start : Nat} (hstart : h.pixelStart data = .ok start) :
    start = h.pixelOffset := by
  rw [pixelStart] at hstart
  split at hstart
  · cases hstart
  · exact (Except.ok.inj hstart).symm

/-- The image of a file has the size that the header gives. -/
theorem size_of_image {palette : Array Color} {image : Bitmap}
    (himage : (match h.runLength with
      | none => h.plainImage data palette
      | some e => h.runLengthImage e data palette) = .ok image) :
    image.width = h.width ∧ image.height = h.height := by
  split at himage
  · obtain ⟨start, -, himage⟩ := bind_eq_ok himage
    split at himage
    · cases himage
    · cases himage
      exact ⟨rfl, rfl⟩
  · obtain ⟨start, -, himage⟩ := bind_eq_ok himage
    cases himage
    exact ⟨rfl, rfl⟩

end Header

end ReceiptPrinter.Bmp
