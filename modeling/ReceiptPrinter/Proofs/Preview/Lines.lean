import ReceiptPrinter.Proofs.Preview.Readings

/-! # Lines — what is printed stays printed

    What a text printer has put out is paper: nothing that comes later changes it.
    The output only grows, and it grows by whole lines, whatever the bytes of a job
    are.  The line that is not finished yet waits in the printer, and no control
    character is ever on it.

    `TextPrinter.GoesOn` says this of two printers, an earlier and a later one.  It
    is a preorder, so it is proved of the few operations that events are made of and
    carried along a job step by step.  `TextPrinter.course` lists the printers that
    a job goes through, one before each step and one behind the last. -/

namespace ReceiptPrinter

/-! ## Texts of whole lines -/

/-- A text of whole lines: it is empty, or a line feed ends it. -/
def Text.Lines (s : String) : Prop :=
  s = "" ∨ ∃ front, s = front ++ "\n"

namespace Text

theorem lines_empty : Lines "" :=
  .inl rfl

theorem lines_line (front : String) : Lines (front ++ "\n") :=
  .inr ⟨front, rfl⟩

theorem Lines.append {s t : String} (hs : Lines s) (ht : Lines t) : Lines (s ++ t) := by
  rcases ht with rfl | ⟨front, rfl⟩
  · rwa [String.append_empty]
  · exact .inr ⟨s ++ front, String.append_assoc.symm⟩

theorem lines_feeds (count : Nat) : Lines (String.ofList (List.replicate count '\n')) := by
  cases count with
  | zero => exact lines_empty
  | succ count =>
      rw [List.replicate_succ', String.ofList_append]
      exact lines_line _

/-- A text without control characters. -/
def Clean (s : String) : Prop :=
  ∀ c ∈ s.toList, ¬ IsControl c

end Text

/-! ## Printers that go on -/

/-- A later printer goes on from an earlier one: all that it adds to the output is
    whole lines, and it brings no control character into the line. -/
structure TextPrinter.GoesOn (p q : TextPrinter) : Prop where
  output : ∃ more, Text.Lines more ∧ q.output = p.output ++ more
  pending : Text.Clean p.pending → Text.Clean q.pending

namespace TextPrinter

theorem goesOn_of_same {p q : TextPrinter} (output : q.output = p.output)
    (pending : q.pending = p.pending) : p.GoesOn q where
  output := ⟨"", Text.lines_empty, by rw [output, String.append_empty]⟩
  pending h := by rwa [pending]

namespace GoesOn

theorem refl (p : TextPrinter) : p.GoesOn p :=
  goesOn_of_same rfl rfl

theorem trans {p q r : TextPrinter} (h : p.GoesOn q) (k : q.GoesOn r) : p.GoesOn r where
  output := by
    obtain ⟨first, hfirst, hq⟩ := h.output
    obtain ⟨second, hsecond, hr⟩ := k.output
    exact ⟨first ++ second, hfirst.append hsecond, by rw [hr, hq, String.append_assoc]⟩
  pending := k.pending ∘ h.pending

/-- What was put out before is the beginning of what is put out later. -/
theorem isPrefix {p q : TextPrinter} (h : p.GoesOn q) : p.output.toList <+: q.output.toList := by
  obtain ⟨more, -, hq⟩ := h.output
  rw [hq, String.toList_append]
  exact List.prefix_append _ _

theorem lines {p q : TextPrinter} (h : p.GoesOn q) (hp : Text.Lines p.output) :
    Text.Lines q.output := by
  obtain ⟨more, hmore, hq⟩ := h.output
  rw [hq]
  exact hp.append hmore

end GoesOn

/-! ## Operations -/

theorem goesOn_endLine (p : TextPrinter) : p.GoesOn p.endLine where
  output := ⟨p.aligned p.pending ++ "\n", Text.lines_line _, String.append_assoc⟩
  pending _ := List.forall_mem_nil _

theorem goesOn_flush (p : TextPrinter) : p.GoesOn p.flush := by
  rw [flush]
  split
  · exact .refl p
  · exact p.goesOn_endLine

theorem goesOn_addLine (p : TextPrinter) (line : String) : p.GoesOn (p.addLine line) where
  output := ⟨line ++ "\n", Text.lines_line _, String.append_assoc⟩
  pending h := h

theorem goesOn_mark (p : TextPrinter) (line : String) : p.GoesOn (p.mark line) :=
  p.goesOn_flush.trans (p.flush.goesOn_addLine line)

theorem goesOn_addData (p : TextPrinter) (data : Bytes) : p.GoesOn (p.addData data) := by
  rw [addData]
  split
  · exact .refl p
  · exact p.goesOn_addLine _

/-- Text may be added to the line if there is no control character in it. -/
theorem goesOn_add (p : TextPrinter) {text : List Char} (h : ∀ c ∈ text, ¬ Text.IsControl c) :
    p.GoesOn (p.add (String.ofList text)) where
  output := (GoesOn.refl p).output
  pending hp := by
    show Text.Clean (p.pending ++ String.ofList text)
    rw [Text.Clean, String.toList_append, String.toList_ofList, List.forall_mem_append]
    exact ⟨hp, h⟩

theorem goesOn_repeat (p : TextPrinter) (count : Nat) {c : Char} (h : ¬ Text.IsControl c) :
    p.GoesOn (p.add (String.ofList (List.replicate count c))) := by
  refine p.goesOn_add ?_
  intro d hd
  rwa [List.eq_of_mem_replicate hd]

theorem goesOn_blankLines (p : TextPrinter) (count : Nat) :
    p.GoesOn (p.apply (.blankLines count)) := by
  refine p.goesOn_flush.trans ⟨?_, id⟩
  exact ⟨_, Text.lines_feeds count, rfl⟩

end TextPrinter

/-! ## Events and steps -/

/-- An event that brings no control character into the line. -/
def Event.Clean (event : Event) : Prop :=
  ∀ c, event = .character c → ¬ Text.IsControl c

/-- All that is read is clean. -/
theorem Event.clean_scan (b : UInt8) (rest : Bytes) : (scan b rest).Says Clean := by
  refine says_scan ?_ b rest ?_ ?_ ?_
  · rintro event others c rfl
    cases others
  · intro _ _ c h
    cases h
  · intro _ _ width height c h
    cases h
  · intro c hc d h
    cases h
    exact hc

namespace TextPrinter

/-- **ONE EVENT** leaves the output in place. -/
theorem goesOn_apply (p : TextPrinter) {event : Event} (clean : event.Clean) :
    p.GoesOn (p.apply event) := by
  cases event with
  | skip => exact .refl p
  | reset | bold | underline | invert | align | scale | storeSymbol =>
      exact goesOn_of_same rfl rfl
  | character c => exact p.goesOn_repeat _ (clean c rfl)
  | tab => exact p.goesOn_repeat 4 (by rw [Text.IsControl]; decide)
  | lineEnd => exact p.goesOn_endLine
  | formFeed => exact p.goesOn_endLine.trans (p.endLine.goesOn_addLine "")
  | blankLines count => exact p.goesOn_blankLines count
  | cut full => exact p.goesOn_mark _
  | barcode kind data => exact (p.goesOn_mark _).trans (goesOn_addData _ data)
  | printSymbol => exact (p.goesOn_mark _).trans (goesOn_addData _ _)
  | image => exact p.goesOn_mark _

/-- **ONE STEP OF THE READER** does, whatever it reads. -/
theorem goesOn_after (p : TextPrinter) {s : Scan} (clean : s.Says Event.Clean) :
    p.GoesOn (p.after s) := by
  cases s with
  | piece size event => exact p.goesOn_apply (clean size event rfl)
  | truncated => exact .refl p

/-! ## The course of a job -/

/-- The printers that steps of the reader go through: the one before each step, and
    the one behind the last. -/
def course (p : TextPrinter) (rs : List ScanStep) : List TextPrinter :=
  rs.scanl (fun p r => p.after r.scan) p

theorem course_cons (p : TextPrinter) (r : ScanStep) (rs : List ScanStep) :
    p.course (r :: rs) = p :: (p.after r.scan).course rs :=
  List.scanl_cons

/-- They are the printers after the first steps, however many. -/
theorem mem_course_iff {p q : TextPrinter} {rs : List ScanStep} :
    q ∈ p.course rs ↔ ∃ done others, done ++ others = rs ∧ p.afterAll done = q := by
  induction rs generalizing p with
  | nil =>
      constructor
      · intro hq
        exact ⟨[], [], rfl, (List.mem_singleton.mp hq).symm⟩
      · rintro ⟨done, others, hsplit, rfl⟩
        rw [(List.append_eq_nil_iff.mp hsplit).1]
        exact List.mem_singleton_self p
  | cons r rs ih =>
      rw [course_cons, List.mem_cons, ih]
      constructor
      · rintro (rfl | ⟨done, others, rfl, rfl⟩)
        · exact ⟨[], r :: rs, rfl, rfl⟩
        · exact ⟨r :: done, others, rfl, rfl⟩
      · rintro ⟨done, others, hsplit, rfl⟩
        cases done with
        | nil => exact .inl rfl
        | cons d done =>
            obtain ⟨rfl, rfl⟩ := List.cons.inj hsplit
            exact .inr ⟨done, others, rfl, rfl⟩

/-- **A RUN OF THE READER** leaves the output in place. -/
theorem goesOn_afterAll {rs : List ScanStep} (clean : ∀ r ∈ rs, r.scan.Says Event.Clean)
    (p : TextPrinter) : p.GoesOn (p.afterAll rs) := by
  induction rs generalizing p with
  | nil => exact .refl p
  | cons r rs ih =>
      rw [List.forall_mem_cons] at clean
      exact (p.goesOn_after clean.1).trans (ih clean.2 _)

section

variable {rs : List ScanStep} (clean : ∀ r ∈ rs, r.scan.Says Event.Clean)
include clean

/-- A printer of a course goes on from the first one, and the last one goes on from it. -/
theorem goesOn_of_mem_course {p q : TextPrinter} (h : q ∈ p.course rs) :
    p.GoesOn q ∧ q.GoesOn (p.afterAll rs) := by
  obtain ⟨done, others, rfl, rfl⟩ := mem_course_iff.mp h
  rw [List.forall_mem_append] at clean
  refine ⟨goesOn_afterAll clean.1 p, ?_⟩
  rw [afterAll_append]
  exact goesOn_afterAll clean.2 _

/-- Each one goes on from all before it. -/
theorem pairwise_course (p : TextPrinter) : (p.course rs).Pairwise GoesOn := by
  induction rs generalizing p with
  | nil => exact List.pairwise_singleton _ p
  | cons r rs ih =>
      have first := p.goesOn_after (clean r List.mem_cons_self)
      rw [List.forall_mem_cons] at clean
      rw [course_cons, List.pairwise_cons]
      refine ⟨?_, ih clean.2 _⟩
      intro q hq
      exact first.trans (goesOn_of_mem_course clean.2 hq).1

end

end TextPrinter

/-- The steps of feeds read only what is clean. -/
theorem Event.clean_of_mem_feeds (feeds : List Bytes) :
    ∀ r ∈ feeds.flatMap steps, r.scan.Says Clean := by
  intro r hr
  obtain ⟨bytes, -, hr⟩ := List.mem_flatMap.mp hr
  obtain ⟨b, rest, hscan⟩ := exists_scan_of_mem_steps hr
  rw [hscan]
  exact clean_scan b rest

/-- **WHAT IS PRINTED STAYS PRINTED, LINE BY LINE**, whatever a fresh printer is fed.
    Along its course the output before a step begins the output behind it and behind
    all later ones; it is always made of whole lines, and no control character is
    ever on the line that is not finished.  The course passes through the printer
    behind every feed.  So the whole of what was printed is made of whole lines, and
    begins with the output of any of these printers. -/
theorem lines_of_feeds {lineWidth : Nat} {p : TextPrinter}
    (made : TextPrinter.ofWidth lineWidth = .ok p) (feeds : List Bytes) :
    (p.course (feeds.flatMap Event.steps)).Pairwise
        (fun q r => q.output.toList <+: r.output.toList)
      ∧ (∀ q ∈ p.course (feeds.flatMap Event.steps),
          Text.Lines q.output ∧ Text.Clean q.pending)
      ∧ (∀ k, p.feedAll (feeds.take k) ∈ p.course (feeds.flatMap Event.steps))
      ∧ Text.Lines (p.feedAll feeds).finish
      ∧ ∀ q ∈ p.course (feeds.flatMap Event.steps),
          q.output.toList <+: (p.feedAll feeds).finish.toList := by
  have clean := Event.clean_of_mem_feeds feeds
  obtain ⟨fresh, idle⟩ : Text.Lines p.output ∧ Text.Clean p.pending := by
    rw [TextPrinter.ofWidth] at made
    split at made
    · cases made
    · cases made
      exact ⟨Text.lines_empty, List.forall_mem_nil _⟩
  have passes : ∀ k, p.feedAll (feeds.take k) ∈ p.course (feeds.flatMap Event.steps) := by
    intro k
    rw [p.feedAll_eq]
    refine TextPrinter.mem_course_iff.mpr ⟨_, (feeds.drop k).flatMap Event.steps, ?_, rfl⟩
    rw [← List.flatMap_append, List.take_append_drop]
  -- What is printed at the end goes on from every printer on the way, the first one too.
  have finished : ∀ q ∈ p.course (feeds.flatMap Event.steps),
      q.GoesOn (p.feedAll feeds).flush := by
    intro q hq
    rw [p.feedAll_eq]
    exact (TextPrinter.goesOn_of_mem_course clean hq).2.trans (TextPrinter.goesOn_flush _)
  have first : p ∈ p.course (feeds.flatMap Event.steps) := passes 0
  refine ⟨(p.pairwise_course clean).imp TextPrinter.GoesOn.isPrefix, ?_, passes,
    (finished p first).lines fresh, fun q hq => (finished q hq).isPrefix⟩
  intro q hq
  have h := (TextPrinter.goesOn_of_mem_course clean hq).1
  exact ⟨h.lines fresh, h.pending idle⟩

/-- Feeds that break off within a character, the data of a bar code and a command,
    with a tab, control characters and an empty run of blank lines among them. -/
def brokenFeeds : List Bytes :=
  [[0x1B, 0x61, 0x01, 0x41, 0x09, 0x7F, 0x01, 0xC3],
    [0xA9, 0x1D, 0x21, 0x11, 0x78, 0x1D, 0x6B, 0x49, 0x0A, 0x41, 0x0A],
    [0x1B, 0x64, 0x00, 0x7A, 0x1B, 0x45]]

/-- The whole of it, and what could be seen between the feeds. -/
theorem lines_of_brokenFeeds :
    TextPrinter.ofWidth 6 = .ok { lineWidth := 6 }
      ∧ (({ lineWidth := 6 } : TextPrinter).feedAll brokenFeeds).finish
        = "A    Ã©xx\n[CODE128]\nA\n\n  zz\n"
      ∧ Text.Lines (({ lineWidth := 6 } : TextPrinter).feedAll brokenFeeds).finish
      ∧ ∀ k, (({ lineWidth := 6 } : TextPrinter).feedAll (brokenFeeds.take k)).output.toList
        <+: (({ lineWidth := 6 } : TextPrinter).feedAll brokenFeeds).finish.toList := by
  have made : TextPrinter.ofWidth 6 = .ok { lineWidth := 6 } := rfl
  obtain ⟨-, -, passes, whole, begins⟩ := lines_of_feeds made brokenFeeds
  refine ⟨made, ?_, whole, fun k => begins _ (passes k)⟩
  decide +kernel

end ReceiptPrinter
