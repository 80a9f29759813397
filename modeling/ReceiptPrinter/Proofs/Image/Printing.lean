import ReceiptPrinter.Proofs.Command.Meaning
import ReceiptPrinter.Proofs.Image.Pixels

/-! # Printing — an accepted image is one that can be printed

    The size of an image is limited twice: by its header, before a pixel is
    read, and by the command that stores it, when its rows are there.  The first
    limit is the stricter one, so nothing is left that could fail late
    (`storeFault?_of_transcode`).  What comes out are two frames.  The first
    counts and holds the rows as they were transcoded, the second prints them. -/

namespace ReceiptPrinter.Bmp

variable {data : Array UInt8} {image : Bitmap} {function : UInt8}

/-- An image that was read can be stored. -/
theorem storeFault?_of_transcode (h : transcode data = .ok image) :
    Graphics.storeFault? image = none := by
  rw [transcode, transcodeFor] at h
  obtain ⟨header, hh, h⟩ := bind_eq_ok h
  obtain ⟨palette, -, h⟩ := bind_eq_ok h
  -- The limits are checked on the header, and the image keeps its size.
  have sound := Header.sound_of_read hh
  obtain ⟨hwidth, hheight⟩ := Header.size_of_image h
  have hdata : Graphics.storeOverhead + image.data.size ≤ 65535 := by
    rw [image.size_data, hwidth, hheight]
    exact sound.payload_le
  have hw : image.width ≤ 2047 := hwidth ▸ sound.width_le
  have hh : image.height ≤ 1662 := hheight ▸ sound.height_le
  rw [Graphics.storeFault?, if_neg (by omega), if_neg (by omega), if_neg (by omega)]

/-- Each number that goes with a stored image fits into a word. -/
theorem words_of_storeFault? (h : Graphics.storeFault? image = none) :
    10 + image.bytes.length ≤ 65535 ∧ image.width ≤ 65535 ∧ image.height ≤ 65535 := by
  simp only [Graphics.storeFault?] at h
  split at h
  · cases h
  next hsize =>
    split at h
    · cases h
    next hwidth =>
      split at h
      · cases h
      next hheight => exact ⟨Nat.not_lt.mp hsize, Nat.not_lt.mp hwidth, Nat.not_lt.mp hheight⟩

theorem functionFault?_eq_none_iff :
    Graphics.functionFault? function = none ↔ function = 2 ∨ function = 50 := by
  rw [Graphics.functionFault?]
  split
  next h => exact ⟨fun _ => h, fun _ => rfl⟩
  next h => exact ⟨fun k => absurd k (Option.some_ne_none _), fun k => absurd k h⟩

/-! ## Frames -/

/-- The frame that stores an image.  Its length counts the ten bytes behind it
    and the rows, and the size of the image stands in front of the rows. -/
def Stores (image : Bitmap) (frame : Bytes) : Prop :=
  ∃ lengthLow lengthHigh widthLow widthHigh heightLow heightHigh,
    frame = [0x1D, 0x28, 0x4C, lengthLow, lengthHigh, 0x30, 0x70, 0x30, 0x01, 0x01, 0x31,
        widthLow, widthHigh, heightLow, heightHigh] ++ image.bytes
      ∧ Event.wordValue lengthLow lengthHigh = 10 + image.bytes.length
      ∧ Event.wordValue widthLow widthHigh = image.width
      ∧ Event.wordValue heightLow heightHigh = image.height

/-- The frame that prints what is stored. -/
def printFrame (function : UInt8) : Bytes :=
  [0x1D, 0x28, 0x4C, 0x02, 0x00, 0x30, function]

theorem stores_bytes (h : Graphics.storeFault? image = none) :
    Stores image (Graphics.store image Graphics.firstColor).bytes := by
  obtain ⟨hlength, hwidth, hheight⟩ := words_of_storeFault? h
  exact ⟨_, _, _, _, _, _, rfl, wordValue_ofNat hlength, wordValue_ofNat hwidth,
    wordValue_ofNat hheight⟩

theorem Stores.length_eq {frame : Bytes} (h : Stores image frame) :
    frame.length = 15 + rowBytes image.width * image.height := by
  obtain ⟨_, _, _, _, _, _, rfl, -⟩ := h
  rw [List.length_append, image.length_bytes]
  rfl

/-! ## Outcomes -/

/-- A file that can be transcoded is sent as its two frames. -/
theorem print_of_transcode (hf : Graphics.functionFault? function = none)
    (h : transcode data = .ok image) :
    print data function
      = .ok ((Graphics.store image Graphics.firstColor).bytes ++ printFrame function) := by
  have sent : ∀ c ∈ printCommands image function, c.fault? = none := by
    intro c hc
    simp only [printCommands, List.mem_cons, List.not_mem_nil, or_false] at hc
    rcases hc with rfl | rfl
    · exact storeFault?_of_transcode h
    · exact hf
  simp only [print, hf, h]
  rw [Command.encodeAll_eq_ok _ sent]
  rfl

/-- Printing fails for its function code or for the file, and for nothing else. -/
theorem error_of_print {e : Error} (h : print data function = .error e) :
    Graphics.functionFault? function = some e
      ∨ Graphics.functionFault? function = none
        ∧ ∃ fault, transcode data = .error fault ∧ e = .bitmap fault := by
  cases hf : Graphics.functionFault? function with
  | some fault =>
      simp only [print, hf] at h
      exact .inl (congrArg some (Except.error.inj h))
  | none =>
      cases ht : transcode data with
      | error fault =>
          simp only [print, hf, ht] at h
          exact .inr ⟨rfl, fault, rfl, (Except.error.inj h).symm⟩
      | ok image =>
          rw [print_of_transcode hf ht] at h
          cases h

/-- **AN ACCEPTED IMAGE CAN BE PRINTED.**  A file is printed just if the function
    code is one of the two there are and the file can be transcoded; an error is
    that of the code or that of the file.  What is sent is a frame that stores
    the image, whose rows are those of the transcoded bitmap byte for byte, and
    a frame that prints it. -/
theorem print_iff_transcode (data : Array UInt8) (function : UInt8) :
    ((∃ bytes, print data function = .ok bytes)
        ↔ (function = 2 ∨ function = 50) ∧ ∃ image, transcode data = .ok image)
      ∧ (∀ e, print data function = .error e →
        ¬ (function = 2 ∨ function = 50) ∧ e = .printFunction function.toNat
          ∨ ∃ fault, transcode data = .error fault ∧ e = .bitmap fault)
      ∧ ∀ bytes, print data function = .ok bytes → ∃ image frame,
        transcode data = .ok image ∧ Stores image frame ∧ bytes = frame ++ printFrame function
          ∧ bytes.length = 15 + rowBytes image.width * image.height + 7 := by
  have printed : ∀ bytes, print data function = .ok bytes →
      Graphics.functionFault? function = none ∧ ∃ image, transcode data = .ok image := by
    intro bytes h
    rw [print] at h
    split at h
    · cases h
    next hf =>
      split at h
      · cases h
      next image himage => exact ⟨hf, image, himage⟩
  refine ⟨⟨?_, ?_⟩, ?_, ?_⟩
  · rintro ⟨bytes, h⟩
    obtain ⟨hf, himage⟩ := printed bytes h
    exact ⟨functionFault?_eq_none_iff.mp hf, himage⟩
  · rintro ⟨hf, image, himage⟩
    exact ⟨_, print_of_transcode (functionFault?_eq_none_iff.mpr hf) himage⟩
  · intro e h
    rcases error_of_print h with hf | ⟨-, hfile⟩
    · rw [Graphics.functionFault?] at hf
      split at hf
      · cases hf
      next hn => exact .inl ⟨hn, (Option.some.inj hf).symm⟩
    · exact .inr hfile
  · intro bytes h
    obtain ⟨hf, image, himage⟩ := printed bytes h
    have stores := stores_bytes (storeFault?_of_transcode himage)
    rw [print_of_transcode hf himage] at h
    obtain rfl := Except.ok.inj h
    refine ⟨image, _, himage, stores, rfl, ?_⟩
    rw [List.length_append, stores.length_eq]
    rfl

/-- The image of ten by two dots takes four bytes of rows between the frames. -/
theorem print_tenByTwo :
    print tenByTwo 50 = .ok [0x1D, 0x28, 0x4C, 14, 0, 0x30, 0x70, 0x30, 1, 1, 0x31, 10, 0, 2, 0,
        0x80, 0x00, 0x00, 0x40, 0x1D, 0x28, 0x4C, 2, 0, 0x30, 50]
      ∧ ∃ frame, Stores tenByTwoImage frame
        ∧ [0x1D, 0x28, 0x4C, 14, 0, 0x30, 0x70, 0x30, 1, 1, 0x31, 10, 0, 2, 0,
          0x80, 0x00, 0x00, 0x40, 0x1D, 0x28, 0x4C, 2, 0, 0x30, 50] = frame ++ printFrame 50 := by
  have accepted : transcode tenByTwo = .ok tenByTwoImage := rfl
  have printed : print tenByTwo 50 = .ok [0x1D, 0x28, 0x4C, 14, 0, 0x30, 0x70, 0x30, 1, 1, 0x31,
      10, 0, 2, 0, 0x80, 0x00, 0x00, 0x40, 0x1D, 0x28, 0x4C, 2, 0, 0x30, 50] := rfl
  obtain ⟨image, frame, himage, stores, hbytes, -⟩ :=
    (print_iff_transcode tenByTwo 50).2.2 _ printed
  obtain rfl := Except.ok.inj (accepted.symm.trans himage)
  exact ⟨printed, frame, stores, hbytes⟩

end ReceiptPrinter.Bmp
