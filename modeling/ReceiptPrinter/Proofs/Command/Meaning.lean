import ReceiptPrinter.Command.Basic
import ReceiptPrinter.Proofs.Preview.Legible

/-! # Meanings — what a command does to the paper

    Every command means a few events to who looks at the paper, most of them
    one that is not seen.  `Command.events` says which, family by family and
    without a look at the bytes; `Command.reads_bytes` says that the bytes of a
    command that can be sent are read as just these events, in front of any
    other bytes.

    Lengths are where bytes and meaning could part: the length of `GS (`, the
    one of a bar code and the rows of a raster image are each proved to cover
    their data. -/

namespace ReceiptPrinter

/-! ## Meanings -/

/-- What a control command means. -/
def Control.events : Control → List Event
  | .reset => [.reset]
  | .lineFeeds count => List.replicate count .lineEnd
  | .tab => [.tab]
  | .formFeed => [.formFeed]
  | .printLine => [.lineEnd]
  | .feedLines lines => [.blankLines lines.toNat]
  | .cut kind => [.cut (kind = .full)]
  | .feedAndCut kind _ => [.cut (kind = .full)]
  | _ => [.skip]

/-- What a style command means. -/
def Style.events : Style → List Event
  | .align side => [.align side]
  | .bold on => [.bold on]
  | .underline mode => [.underline (mode ≠ 0 ∧ mode ≠ 0x30)]
  | .invert on => [.invert on]
  | .size width height => [.scale width.toNat height.toNat]
  | .normalSize => [.scale 1 1]
  | _ => [.skip]

/-- What a bar code command means. -/
def Barcode.events : Barcode → List Event
  | .print kind data => [.barcode kind data]
  | _ => [.skip]

/-- What a symbol command means. -/
def Symbol.events : Symbol → List Event
  | .store data => [.storeSymbol data]
  | .print => [.printSymbol]
  | _ => [.skip]

/-- What a graphics command means. -/
def Graphics.events : Graphics → List Event
  | .raster .. => [.image]
  | .store .. => [.skip]
  | .printStored _ => [.image]

/-- What a text means: one event for each of its characters. -/
def Encoding.events (e : Encoding) (s : String) : List Event :=
  s.toList.map fun c => Event.ofChar (e.shown c)

/-- What a command means. -/
def Command.events : Command → List Event
  | .control c => c.events
  | .style s => s.events
  | .text e s => e.events s
  | .line e s => e.events s ++ [.lineEnd]
  | .barcode b => b.events
  | .symbol s => s.events
  | .graphics g => g.events

/-- A command whose text, if it has one, is legible. -/
def Command.Legible : Command → Prop
  | .text e s => e.Legible s
  | .line e s => e.Legible s
  | _ => True

instance : DecidablePred Command.Legible
  | .text e s => inferInstanceAs (Decidable (e.Legible s))
  | .line e s => inferInstanceAs (Decidable (e.Legible s))
  | .control _ | .style _ | .barcode _ | .symbol _ | .graphics _ => isTrue trivial

/-! ## Lengths -/

/-- Two bytes hold a word. -/
theorem wordValue_word (n : UInt16) :
    Event.wordValue n.toUInt8 (n >>> 8).toUInt8 = n.toNat := by
  have hn : n.toNat < 65536 := n.toNat_lt
  have hs : (n >>> 8).toNat = n.toNat / 256 := by
    rw [UInt16.toNat_shiftRight, Nat.shiftRight_eq_div_pow]
    rfl
  rw [Event.wordValue, UInt16.toNat_toUInt8, UInt16.toNat_toUInt8, hs]
  omega

theorem wordValue_ofNat {n : Nat} (h : n ≤ 65535) :
    Event.wordValue (UInt16.ofNat n).toUInt8 (UInt16.ofNat n >>> 8).toUInt8 = n := by
  rw [wordValue_word]
  exact UInt16.toNat_ofNat_of_lt' (show n < 65536 by omega)

/-- A function of `GS (` takes its parameters when its length counts them. -/
theorem Event.scan_function {low high : UInt8} (group : UInt8) (parameters : Bytes)
    (counted : wordValue low high = parameters.length) (after : Bytes) :
    scan 0x1D (0x28 :: group :: low :: high :: (parameters ++ after))
      = .piece (parameters.length + 5) (ofFunction group parameters) := by
  show Scan.piece (wordValue low high + 5)
    (ofFunction group ((parameters ++ after).take (wordValue low high))) = _
  rw [counted, List.take_left]

/-- Data without a NUL are all that stands before the NUL that ends them. -/
theorem takeWhile_terminated {data : Bytes} (h : data.contains 0 = false) (after : Bytes) :
    (data ++ 0 :: after).takeWhile (· ≠ 0) = data := by
  have hd : ∀ b ∈ data, decide (b ≠ 0) = true := by
    intro b hb
    refine decide_eq_true ?_
    intro e
    rw [e] at hb
    rw [List.contains_iff_mem.mpr hb] at h
    exact Bool.noConfusion h
  rw [List.takeWhile_append_of_pos hd, List.takeWhile_cons_of_neg (by decide), List.append_nil]

/-! ## Bytes and meanings -/

theorem Control.reads_bytes (c : Control) : Event.Reads c.bytes c.events := by
  cases c with
  | lineFeeds count =>
      have h : ∀ n : Nat, Event.Reads (List.replicate n 0x0A) (List.replicate n .lineEnd) := by
        intro n
        induction n with
        | zero => exact .nil
        | succ n ih =>
            show Event.Reads ([0x0A] ++ List.replicate n 0x0A)
              ([.lineEnd] ++ List.replicate n .lineEnd)
            exact .append (.single fun after => rfl) ih
      exact h count
  | cut kind => cases kind <;> exact .single fun after => rfl
  | feedAndCut kind dots => cases kind <;> exact .single fun after => rfl
  | _ => exact .single fun after => rfl

/-- A size that can be sent has both scales from 1 to 8. -/
theorem Style.scales_of_sent {width height : UInt8}
    (sent : (Style.size width height).fault? = none) :
    (1 ≤ width.toNat ∧ width.toNat ≤ 8) ∧ 1 ≤ height.toNat ∧ height.toNat ≤ 8 := by
  rw [Style.fault?] at sent
  split at sent
  · cases sent
  next hw =>
    split at sent
    · cases sent
    next hh =>
      simp only [Bool.not_eq_true', Bool.not_eq_false, Bool.and_eq_true, decide_eq_true_eq,
        UInt8.le_iff_toNat_le, UInt8.reduceToNat] at hw hh
      exact ⟨hw, hh⟩

/-- The two halves of its byte give a size back. -/
theorem Style.halves_of_size {width height : UInt8}
    (sent : (Style.size width height).fault? = none) :
    ((height - 1) * 16 + (width - 1)).toNat % 16 + 1 = width.toNat
      ∧ ((height - 1) * 16 + (width - 1)).toNat / 16 + 1 = height.toNat := by
  obtain ⟨⟨hw, hw'⟩, hh, hh'⟩ := scales_of_sent sent
  have kw : (width - 1).toNat = width.toNat - 1 :=
    UInt8.toNat_sub_of_le width 1 (UInt8.le_iff_toNat_le.mpr hw)
  have kh : (height - 1).toNat = height.toNat - 1 :=
    UInt8.toNat_sub_of_le height 1 (UInt8.le_iff_toNat_le.mpr hh)
  -- Less than eight sixteens and less than sixteen: the byte does not overflow.
  have k : ((height - 1) * 16 + (width - 1)).toNat
      = (height.toNat - 1) * 16 + (width.toNat - 1) := by
    rw [UInt8.toNat_add, UInt8.toNat_mul, kw, kh, show (16 : UInt8).toNat = 16 from rfl]
    omega
  rw [k]
  omega

theorem Style.reads_bytes (s : Style) (sent : s.fault? = none) :
    Event.Reads s.bytes s.events := by
  cases s with
  | align side => cases side <;> exact .single fun after => rfl
  | bold on => cases on <;> exact .single fun after => rfl
  | invert on => cases on <;> exact .single fun after => rfl
  | size width height =>
      obtain ⟨hw, hh⟩ := halves_of_size sent
      refine .single ?_
      intro after
      show Scan.piece 3 (.scale _ _) = _
      rw [hw, hh]
      rfl
  | _ => exact .single fun after => rfl

theorem Barcode.reads_bytes (b : Barcode) (sent : b.fault? = none) :
    Event.Reads b.bytes b.events := by
  cases b with
  | print kind data =>
      rw [Barcode.fault?] at sent
      -- The old symbologies end their data with a NUL, the others count them.
      by_cases hk : kind ≤ 6
      · rw [if_pos hk] at sent
        have hd : data.contains 0 = false := by
          cases h : data.contains 0 with
          | false => rfl
          | true => rw [h] at sent; cases sent
        rw [Barcode.bytes, if_pos hk]
        show Event.Reads (0x1D :: (0x6B :: kind :: (data ++ [0]))) _
        refine .single ?_
        intro after
        show Event.scanBarcode (kind :: (data ++ [0] ++ after)) = _
        simp only [Event.scanBarcode, if_pos hk]
        rw [List.append_assoc, List.singleton_append, takeWhile_terminated hd, List.length_cons,
          List.length_cons, List.length_append]
        rfl
      · rw [if_neg hk] at sent
        have hl : (UInt8.ofNat data.length).toNat = data.length := by
          refine UInt8.toNat_ofNat_of_lt' (show data.length < 256 from ?_)
          rcases Nat.lt_or_ge 255 data.length with h | h
          · rw [if_pos h] at sent
            cases sent
          · omega
        rw [Barcode.bytes, if_neg hk]
        show Event.Reads (0x1D :: (0x6B :: kind :: UInt8.ofNat data.length :: data)) _
        refine .single ?_
        intro after
        show Event.scanBarcode (kind :: UInt8.ofNat data.length :: (data ++ after)) = _
        simp only [Event.scanBarcode, if_neg hk]
        rw [hl, List.take_left]
        rfl
  | _ => exact .single fun after => rfl

theorem Symbol.reads_bytes (s : Symbol) (sent : s.fault? = none) :
    Event.Reads s.bytes s.events := by
  cases s with
  | store data =>
      have hl : data.length + 3 ≤ 65535 := by
        rw [Symbol.fault?] at sent
        split at sent
        · cases sent
        next h => exact Nat.add_le_add_right (Nat.not_lt.mp h) 3
      exact .single fun after =>
        Event.scan_function 0x6B (0x31 :: 0x50 :: 0x30 :: data) (wordValue_ofNat hl) after
  | _ => exact .single fun after => rfl

theorem Graphics.reads_bytes (g : Graphics) (sent : g.fault? = none) :
    Event.Reads g.bytes g.events := by
  cases g with
  | raster data widthBytes height scale =>
      have hl : data.length = widthBytes.toNat * height.toNat := by
        simp only [Graphics.fault?] at sent
        split at sent
        · cases sent
        split at sent
        · cases sent
        split at sent
        · cases sent
        next h => exact Decidable.of_not_not h
      refine .single ?_
      intro after
      show Scan.piece (8 + Event.wordValue widthBytes.toUInt8 (widthBytes >>> 8).toUInt8
        * Event.wordValue height.toUInt8 (height >>> 8).toUInt8) .image
          = .piece (data.length + 7 + 1) .image
      rw [wordValue_word, wordValue_word, ← hl, Nat.add_comm]
  | store image color =>
      have hl : storeOverhead + image.data.size ≤ 65535 := by
        simp only [Graphics.fault?, storeFault?] at sent
        split at sent
        · cases sent
        next h => exact Nat.not_lt.mp h
      -- The length counts the bytes in front of the data too.
      have hc : (0x30 :: 0x70 :: 0x30 :: 0x01 :: 0x01 :: color ::
          (word (UInt16.ofNat image.width) ++ word (UInt16.ofNat image.height)
            ++ image.bytes)).length = storeOverhead + image.data.size := by
        simp only [List.length_cons, List.length_append, word, List.length_nil, Bitmap.bytes,
          Array.length_toList, storeOverhead]
        omega
      exact .single fun after =>
        Event.scan_function 0x4C (0x30 :: 0x70 :: 0x30 :: 0x01 :: 0x01 :: color ::
          (word (UInt16.ofNat image.width) ++ word (UInt16.ofNat image.height)
            ++ image.bytes)) ((wordValue_ofNat hl).trans hc.symm) after
  | printStored function =>
      simp only [Graphics.fault?, functionFault?] at sent
      split at sent
      next h =>
        rcases h with rfl | rfl <;> exact .single fun after => rfl
      · cases sent

/-- **THE BYTES OF A COMMAND MEAN THE COMMAND**: one that can be sent, and whose
    text is legible, is read as its own events. -/
theorem Command.reads_bytes (c : Command) (sent : c.fault? = none) (legible : c.Legible) :
    Event.Reads c.bytes c.events := by
  cases c with
  | control c => exact c.reads_bytes
  | style s => exact s.reads_bytes sent
  | text e s => exact Encoding.reads_encode legible
  | line e s => exact (Encoding.reads_encode legible).append (.single fun after => rfl)
  | barcode b => exact b.reads_bytes sent
  | symbol s => exact s.reads_bytes sent
  | graphics g => exact g.reads_bytes sent

end ReceiptPrinter
