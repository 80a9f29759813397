import ReceiptPrinter.Proofs.Preview.Commands

/-! # Styles — what a job does to the look of what follows

    A printer's style changes by commands alone.  So of a job with text in it
    the style afterwards is known from the commands, even where the text cannot
    be: bytes of a table that is not UTF-8 may be taken for a sequence, and two
    characters of one text be shown as another one.

    `Event.Interleaves bytes events` says that bytes are pieces which are read
    on their own, with any text in between that begins no command, and that the
    pieces mean these events.  A printer that is fed such bytes has the style
    that the events make (`Interleaves.style_feed`), and the reader has a
    boundary in front of what begins with a byte of ASCII (`Interleaves.steps_append`). -/

namespace ReceiptPrinter

/-! ## Styles after events -/

/-- What an event does to a style. -/
def TextStyle.after (style : TextStyle) : Event → TextStyle
  | .reset => {}
  | .bold on => { style with bold := on }
  | .underline on => { style with underline := on }
  | .invert on => { style with invert := on }
  | .align side => { style with side }
  | .scale width height => { style with width, height }
  | _ => style

/-- What events do to a style. -/
def TextStyle.afterAll (style : TextStyle) (events : List Event) : TextStyle :=
  events.foldl after style

theorem TextStyle.afterAll_append (style : TextStyle) (xs ys : List Event) :
    style.afterAll (xs ++ ys) = (style.afterAll xs).afterAll ys :=
  List.foldl_append

namespace TextPrinter

theorem style_flush (p : TextPrinter) : p.flush.style = p.style := by
  rw [flush]
  split <;> rfl

theorem style_mark (p : TextPrinter) (line : String) : (p.mark line).style = p.style :=
  p.style_flush

theorem style_addData (p : TextPrinter) (data : Bytes) : (p.addData data).style = p.style := by
  rw [addData]
  split <;> rfl

/-- A printer keeps its style as the events of its job say. -/
theorem style_apply (p : TextPrinter) (e : Event) : (p.apply e).style = p.style.after e := by
  cases e with
  | blankLines count => exact p.style_flush
  | cut full => exact p.style_mark _
  | image => exact p.style_mark _
  | barcode kind data => exact (style_addData _ _).trans (p.style_mark _)
  | printSymbol => exact (style_addData _ _).trans (p.style_mark _)
  | _ => rfl

theorem style_applyAll (p : TextPrinter) (events : List Event) :
    (p.applyAll events).style = p.style.afterAll events := by
  induction events generalizing p with
  | nil => rfl
  | cons e rest ih =>
      show ((p.apply e).applyAll rest).style = (p.style.after e).afterAll rest
      rw [ih, style_apply]

end TextPrinter

namespace Event

/-! ## Steps over text -/

/-- A byte that begins no command is read as text: it changes no style and takes
    only bytes outside ASCII along. -/
theorem scan_text {b : UInt8} (plain : isLead b = false) (rest : Bytes) :
    ∃ size event, scan b rest = .piece size event ∧ (∀ style : TextStyle, style.after event = style)
      ∧ (∀ x ∈ rest.take (size - 1), 128 ≤ x.toNat) := by
  rw [scan_of_plain plain, scanText]
  split
  · exact ⟨_, _, rfl, fun _ => rfl, List.forall_mem_nil _⟩
  split
  · exact ⟨_, _, rfl, fun _ => rfl, List.forall_mem_nil _⟩
  split
  · exact ⟨_, _, rfl, fun _ => rfl, List.forall_mem_nil _⟩
  split
  · exact ⟨_, _, rfl, fun _ => rfl, List.forall_mem_nil _⟩
  split
  next c size hh => exact ⟨_, _, rfl, fun _ => rfl, Utf8.high_of_head hh⟩
  · exact ⟨_, _, rfl, fun _ => rfl, List.forall_mem_nil _⟩

/-- A step over text, in front of the bytes that it may take and of a byte of ASCII. -/
theorem steps_text {a : UInt8} (plain : isLead a = false) (xs : Bytes) :
    ∃ r size, steps (a :: xs) = r :: steps (xs.drop size)
      ∧ (∀ b ys, b.toNat < 128 →
          steps (a :: (xs ++ b :: ys)) = r :: steps (xs.drop size ++ b :: ys))
      ∧ (∀ x ∈ xs.take size, 128 ≤ x.toNat)
      ∧ ∀ p : TextPrinter, (p.after r.scan).style = p.style := by
  obtain ⟨size, event, hs, quiet, high⟩ := scan_text plain xs
  have htaken : TextPrinter.taken (.piece size event) xs = (xs.take (size - 1)).length := rfl
  refine ⟨⟨a :: xs.take (size - 1), .piece size event⟩, size - 1, ?_, ?_, high, ?_⟩
  · rw [steps_cons, hs, htaken, List.length_take, List.take_eq_take_min.symm,
      List.drop_eq_drop_min.symm]
  · intro b ys low
    have hscan : scan a (xs ++ b :: ys) = .piece size event := by
      rw [scan_of_plain plain, scanText, Utf8.head_append_low low, ← scanText,
        ← scan_of_plain plain, hs]
    -- The byte is not outside ASCII, so it is not taken.
    have hle : size - 1 ≤ xs.length := by
      obtain ⟨_, _, hs', -, high'⟩ := scan_text plain (xs ++ b :: ys)
      obtain ⟨rfl, -⟩ := Scan.piece.inj (hscan.symm.trans hs')
      refine Nat.le_of_not_lt fun hlt => absurd (high' b ?_) (Nat.not_le.mpr low)
      obtain ⟨k, hk⟩ : ∃ k, size - 1 - xs.length = k + 1 := ⟨size - 1 - xs.length - 1, by omega⟩
      rw [List.take_append, hk]
      exact List.mem_append_right _ List.mem_cons_self
    have htaken' : TextPrinter.taken (.piece size event) (xs ++ b :: ys) = size - 1 := by
      show ((xs ++ b :: ys).take (size - 1)).length = _
      rw [List.length_take, List.length_append]
      omega
    rw [steps_cons, hscan, htaken', List.take_append_of_le_length hle,
      List.drop_append_of_le_length hle]
  · intro p
    show (p.apply event).style = _
    rw [p.style_apply, quiet]

/-! ## Pieces and text -/

/-- The bytes are pieces that are read on their own, with text in between, and the
    pieces mean these events.  Each piece begins with a byte of ASCII. -/
inductive Interleaves : Bytes → List Event → Prop
  | nil : Interleaves [] []
  | text {b : UInt8} {bytes : Bytes} {events : List Event} (plain : isLead b = false)
      (others : Interleaves bytes events) : Interleaves (b :: bytes) events
  | piece {b : UInt8} {rest bytes : Bytes} {events more : List Event} (low : b.toNat < 128)
      (first : Reads (b :: rest) events) (others : Interleaves bytes more) :
      Interleaves (b :: (rest ++ bytes)) (events ++ more)

namespace Interleaves

variable {bytes : Bytes} {events : List Event}

theorem append {other : Bytes} {more : List Event} (h : Interleaves bytes events)
    (k : Interleaves other more) : Interleaves (bytes ++ other) (events ++ more) := by
  induction h with
  | nil => exact k
  | text plain others ih => exact .text plain ih
  | piece low first others ih =>
      rw [List.cons_append, List.append_assoc, List.append_assoc]
      exact .piece low first ih

theorem of_plain (plain : ∀ b ∈ bytes, isLead b = false) : Interleaves bytes [] := by
  induction bytes with
  | nil => exact .nil
  | cons b rest ih =>
      rw [List.forall_mem_cons] at plain
      exact .text plain.1 (ih plain.2)

theorem of_reads (h : Reads bytes events) (low : ∀ b ∈ bytes.head?, b.toNat < 128) :
    Interleaves bytes events := by
  cases bytes with
  | nil =>
      cases h
      exact .nil
  | cons b rest =>
      have hp := Interleaves.piece (low b rfl) h .nil
      rwa [List.append_nil, List.append_nil] at hp

/-- Bytes outside ASCII in front of the others are text. -/
theorem drop (h : Interleaves bytes events) {size : Nat}
    (high : ∀ x ∈ bytes.take size, 128 ≤ x.toNat) : Interleaves (bytes.drop size) events := by
  induction size generalizing bytes with
  | zero => exact h
  | succ size ih =>
      cases h with
      | nil => exact .nil
      | text plain others => exact ih others (List.forall_mem_cons.mp high).2
      | piece low first others =>
          exact absurd (List.forall_mem_cons.mp high).1 (Nat.not_le.mpr low)

/-- Induction along the steps of the reader.  Text may take along what is outside
    ASCII behind it, be it of another piece of text. -/
theorem induction
    {motive : (bytes : Bytes) → (events : List Event) → Interleaves bytes events → Prop}
    (nil : motive [] [] .nil)
    (text : ∀ {b bytes events} (plain : isLead b = false) (others : Interleaves bytes events),
      (∀ {size} (high : ∀ x ∈ bytes.take size, 128 ≤ x.toNat), motive _ _ (others.drop high)) →
      motive _ _ (.text plain others))
    (piece : ∀ {b rest bytes events more} (low : b.toNat < 128) (first : Reads (b :: rest) events)
      (others : Interleaves bytes more), motive _ _ others → motive _ _ (.piece low first others))
    (h : Interleaves bytes events) : motive _ _ h := by
  have main : ∀ (n : Nat) (bytes : Bytes) (events : List Event) (h : Interleaves bytes events),
      bytes.length ≤ n → motive bytes events h := by
    intro n
    induction n with
    | zero =>
        intro bytes events h hn
        obtain rfl := List.eq_nil_of_length_eq_zero (Nat.le_zero.mp hn)
        cases h
        exact nil
    | succ n ih =>
        intro bytes events h hn
        cases h with
        | nil => exact nil
        | text plain others =>
            rw [List.length_cons] at hn
            refine text plain others fun high => ih _ _ _ ?_
            rw [List.length_drop]
            omega
        | piece low first others =>
            rw [List.length_cons, List.length_append] at hn
            exact piece low first others (ih _ _ _ (by omega))
  exact main _ bytes events h (Nat.le_refl _)

/-- **THE STYLE AFTER A JOB IS MADE BY ITS COMMANDS**, whatever the text in it is
    taken for. -/
theorem style_feed (h : Interleaves bytes events) (p : TextPrinter) :
    (p.feed bytes).1.style = p.style.afterAll events := by
  rw [TextPrinter.feed_eq]
  show (p.afterAll (steps bytes)).style = _
  induction h using Interleaves.induction generalizing p with
  | nil =>
      rw [steps_nil]
      rfl
  | @text b bytes events plain others ih =>
      obtain ⟨r, size, hsteps, -, high, quiet⟩ := steps_text plain bytes
      rw [hsteps]
      show ((p.after r.scan).afterAll (steps (bytes.drop size))).style = _
      rw [ih high, quiet]
  | piece low first others ih =>
      rw [← List.cons_append, first.steps_append, TextPrinter.afterAll_append, ih,
        first.afterAll_steps, TextPrinter.style_applyAll, TextStyle.afterAll_append]

/-- The reader has a boundary behind such bytes, if what comes next begins with a
    byte of ASCII. -/
theorem steps_append (h : Interleaves bytes events) {c : UInt8} (low : c.toNat < 128)
    (after : Bytes) : steps (bytes ++ c :: after) = steps bytes ++ steps (c :: after) := by
  induction h using Interleaves.induction with
  | nil =>
      rw [steps_nil]
      rfl
  | @text b bytes events plain others ih =>
      obtain ⟨r, size, hsteps, hnext, high, -⟩ := steps_text plain bytes
      rw [List.cons_append, hnext c after low, ih high, hsteps, List.cons_append]
  | piece low' first others ih =>
      rw [← List.cons_append, List.append_assoc, first.steps_append, first.steps_append, ih,
        List.append_assoc]

end Interleaves

end Event

end ReceiptPrinter
