import ReceiptPrinter.Receipt.Compile

/-! # Elements — the vocabulary case by case

    What becomes of an element is decided by its name, so a property of all
    receipts is proved name by name.  The case analyses of this file say once
    which names there are: of elements that give their content a style, of those
    that are commands whatever the context, and of those that are filled in.
    All of them lead to a walk of one of a few forms (`Walk.element_cases`). -/

namespace ReceiptPrinter

namespace Tag

/-- An element with a style, by its name. -/
theorem styles_cases {r : Except Error (Style × Style)}
    {motive : (t : Tag) → t.styles? = some r → Prop}
    (bold : ∀ attributes h, motive ⟨"bold", attributes⟩ h)
    (invert : ∀ attributes h, motive ⟨"invert", attributes⟩ h)
    (rotate : ∀ attributes h, motive ⟨"rotate90", attributes⟩ h)
    (underline : ∀ attributes h, motive ⟨"underline", attributes⟩ h)
    (size : ∀ attributes h, motive ⟨"size", attributes⟩ h)
    (align : ∀ attributes h, motive ⟨"align", attributes⟩ h)
    (font : ∀ attributes h, motive ⟨"font", attributes⟩ h)
    (t : Tag) (h : t.styles? = some r) : motive t h := by
  obtain ⟨name, attributes⟩ := t
  have k := h
  rw [styles?.eq_def] at k
  split at k
  case h_1 hn =>
    cases hn
    exact bold _ _
  case h_2 hn =>
    cases hn
    exact invert _ _
  case h_3 hn =>
    cases hn
    exact rotate _ _
  case h_4 hn =>
    cases hn
    exact underline _ _
  case h_5 hn =>
    cases hn
    exact size _ _
  case h_6 hn =>
    cases hn
    exact align _ _
  case h_7 hn =>
    cases hn
    exact font _ _
  case h_8 => cases k

/-- An element that is the same commands in every context, by its name. -/
theorem commands_cases {r : Except Error (List Command)}
    {motive : (t : Tag) → t.commands? = some r → Prop}
    (reset : ∀ attributes h, motive ⟨"initialize", attributes⟩ h)
    (feed : ∀ attributes h, motive ⟨"feed", attributes⟩ h)
    (cut : ∀ attributes h, motive ⟨"cut", attributes⟩ h)
    (drawer : ∀ attributes h, motive ⟨"drawer", attributes⟩ h)
    (beep : ∀ attributes h, motive ⟨"beep", attributes⟩ h)
    (spacing : ∀ attributes h, motive ⟨"spacing", attributes⟩ h)
    (margin : ∀ attributes h, motive ⟨"margin", attributes⟩ h)
    (codepage : ∀ attributes h, motive ⟨"codepage", attributes⟩ h)
    (t : Tag) (h : t.commands? = some r) : motive t h := by
  obtain ⟨name, attributes⟩ := t
  have k := h
  rw [commands?.eq_def] at k
  split at k
  case h_1 hn =>
    cases hn
    exact reset _ _
  case h_2 hn =>
    cases hn
    exact feed _ _
  case h_3 hn =>
    cases hn
    exact cut _ _
  case h_4 hn =>
    cases hn
    exact drawer _ _
  case h_5 hn =>
    cases hn
    exact beep _ _
  case h_6 hn =>
    cases hn
    exact spacing _ _
  case h_7 hn =>
    cases hn
    exact margin _ _
  case h_8 hn =>
    cases hn
    exact codepage _ _
  case h_9 => cases k

/-- An element that is filled in from the context, by its name. -/
theorem filledSteps_cases {locate : String → String}
    {r : (String → String) → Except Error (List Step)}
    {motive : (t : Tag) → t.filledSteps? locate = some r → Prop}
    (qrcode : ∀ attributes h, motive ⟨"qrcode", attributes⟩ h)
    (barcode : ∀ attributes h, motive ⟨"barcode", attributes⟩ h)
    (image : ∀ attributes h, motive ⟨"image", attributes⟩ h)
    (t : Tag) (h : t.filledSteps? locate = some r) : motive t h := by
  obtain ⟨name, attributes⟩ := t
  have k := h
  rw [filledSteps?.eq_def] at k
  split at k
  case h_1 hn =>
    cases hn
    exact qrcode _ _
  case h_2 hn =>
    cases hn
    exact barcode _ _
  case h_3 hn =>
    cases hn
    exact image _ _
  case h_4 => cases k

/-- The names of elements with a style. -/
def styleNames : List String :=
  ["bold", "invert", "rotate90", "underline", "size", "align", "font"]

/-- The names of elements that are the same commands in every context. -/
def commandNames : List String :=
  ["initialize", "feed", "cut", "drawer", "beep", "spacing", "margin", "codepage"]

/-- The names of elements that are filled in from the context. -/
def filledNames : List String :=
  ["qrcode", "barcode", "image"]

variable {t : Tag}

theorem mk_of_name {name : String} (h : t.name = name) : ⟨name, t.attributes⟩ = t := by
  rw [← h]

theorem styles?_ne_none (h : t.name ∈ styleNames) : t.styles? ≠ none := by
  obtain ⟨name, attributes⟩ := t
  simp only [styleNames, List.mem_cons, List.not_mem_nil, or_false] at h
  rcases h with rfl | rfl | rfl | rfl | rfl | rfl | rfl <;> exact Option.some_ne_none _

theorem commands?_ne_none (h : t.name ∈ commandNames) : t.commands? ≠ none := by
  obtain ⟨name, attributes⟩ := t
  simp only [commandNames, List.mem_cons, List.not_mem_nil, or_false] at h
  rcases h with rfl | rfl | rfl | rfl | rfl | rfl | rfl | rfl <;> exact Option.some_ne_none _

theorem filledSteps?_ne_none (locate : String → String) (h : t.name ∈ filledNames) :
    t.filledSteps? locate ≠ none := by
  obtain ⟨name, attributes⟩ := t
  simp only [filledNames, List.mem_cons, List.not_mem_nil, or_false] at h
  rcases h with rfl | rfl | rfl <;> exact Option.some_ne_none _

/-- The names of elements whose walk is not decided by their attributes. -/
def basicNames : List String := ["text", "line", "if", "for"]

/-- The names that say what becomes of an element.  One of any other name stands
    for its content. -/
def elementNames : List String :=
  basicNames ++ styleNames ++ commandNames ++ filledNames

end Tag

namespace Walk

variable {o : Type} [Members o]

/-- **THE FORMS OF AN ELEMENT'S WALK**, and what decides each of them. -/
theorem element_cases {motive : Walk o → Prop} {s : Settings} {e : Encoding} {t : Tag}
    {text : String} {content : Walk o}
    (plain : t.name = "text" → motive (steps fun c => [.command (.text e (fill c text))]))
    (line : t.name = "line" → motive (steps fun c => [.command (.line e (fill c text))]))
    (chosen : t.name = "if" → motive (conditional t content))
    (repeated : t.name = "for" → motive (loop s t content))
    (styled : ∀ on off, t.styles? = some (.ok (on, off)) → motive (between on off content))
    (unstyled : ∀ fault, t.styles? = some (.error fault) → motive (fail fault))
    (fixed : ∀ parts, t.commands? = some parts →
      motive (steps fun _ => ofSteps (parts.map (·.map .command))))
    (filled : ∀ parts, t.filledSteps? s.locate = some parts →
      motive (steps fun c => ofSteps (parts (fill c))))
    (transparent : t.name ∉ Tag.elementNames → motive content) :
    motive (element s e t text content) := by
  rw [element]
  split
  next h => exact plain h
  next h => exact line h
  next h => exact chosen h
  next h => exact repeated h
  next htext hline hif hfor =>
    split
    next h => exact styled _ _ h
    next h => exact unstyled _ h
    next h => exact fixed _ h
    next h => exact filled _ h
    next hs hc hf =>
      refine transparent ?_
      intro hm
      rw [Tag.elementNames, List.mem_append, List.mem_append, List.mem_append] at hm
      rcases hm with ((hm | hm) | hm) | hm
      · simp only [Tag.basicNames, List.mem_cons, List.not_mem_nil, or_false] at hm
        rcases hm with h | h | h | h
        · exact htext h
        · exact hline h
        · exact hif h
        · exact hfor h
      · exact Tag.styles?_ne_none hm hs
      · exact Tag.commands?_ne_none hm hc
      · exact Tag.filledSteps?_ne_none _ hm hf

end Walk

/-! ## Forms -/

/-- What becomes of an element: all that the compiler decides by its name and its
    attributes. -/
inductive Tag.Form where
  /-- Its text is sent. -/
  | text
  /-- Its text is sent as a line. -/
  | line
  /-- Its content is taken if a condition holds. -/
  | chosen
  /-- Its content is taken once per item. -/
  | repeated
  /-- Its content stands between two styles. -/
  | styled (on off : Style)
  | refused (fault : Error)
  /-- It is the same commands in every context. -/
  | fixed (parts : Except Error (List Command))
  /-- It is filled in from the context. -/
  | filled (parts : (String → String) → Except Error (List Step))
  /-- It stands for its content. -/
  | transparent

/-- The form of an element. -/
def Tag.form (t : Tag) (locate : String → String) : Tag.Form :=
  match t.name with
  | "text" => .text
  | "line" => .line
  | "if" => .chosen
  | "for" => .repeated
  | _ =>
    match t.styles?, t.commands?, t.filledSteps? locate with
    | some (.ok (on, off)), _, _ => .styled on off
    | some (.error fault), _, _ => .refused fault
    | none, some parts, _ => .fixed parts
    | none, none, some parts => .filled parts
    | none, none, none => .transparent

theorem Tag.form_of_other {t : Tag} {locate : String → String} (htext : t.name ≠ "text")
    (hline : t.name ≠ "line") (hif : t.name ≠ "if") (hfor : t.name ≠ "for") :
    t.form locate
      = match t.styles?, t.commands?, t.filledSteps? locate with
        | some (.ok (on, off)), _, _ => .styled on off
        | some (.error fault), _, _ => .refused fault
        | none, some parts, _ => .fixed parts
        | none, none, some parts => .filled parts
        | none, none, none => .transparent := by
  rw [form]
  split
  next h => exact absurd h htext
  next h => exact absurd h hline
  next h => exact absurd h hif
  next h => exact absurd h hfor
  next => rfl

namespace Walk

variable {o : Type} [Members o]

/-- The walk of an element of a form. -/
def ofForm (s : Settings) (e : Encoding) (t : Tag) (text : String) (content : Walk o) :
    Tag.Form → Walk o
  | .text => steps fun c => [.command (.text e (fill c text))]
  | .line => steps fun c => [.command (.line e (fill c text))]
  | .chosen => conditional t content
  | .repeated => loop s t content
  | .styled on off => between on off content
  | .refused fault => fail fault
  | .fixed parts => steps fun _ => ofSteps (parts.map (·.map .command))
  | .filled parts => steps fun c => ofSteps (parts (fill c))
  | .transparent => content

/-- **THE WALK OF AN ELEMENT IS DECIDED BY ITS FORM.** -/
theorem element_eq_ofForm (s : Settings) (e : Encoding) (t : Tag) (text : String)
    (content : Walk o) :
    element s e t text content = ofForm s e t text content (t.form s.locate) := by
  rw [element]
  split
  next h => rw [Tag.form, h]; rfl
  next h => rw [Tag.form, h]; rfl
  next h => rw [Tag.form, h]; rfl
  next h => rw [Tag.form, h]; rfl
  next htext hline hif hfor =>
    rw [Tag.form_of_other htext hline hif hfor]
    cases t.styles? with
    | some styles => rcases styles with fault | ⟨on, off⟩ <;> rfl
    | none =>
        cases t.commands? with
        | some parts => rfl
        | none => cases t.filledSteps? s.locate <;> rfl

end Walk

end ReceiptPrinter
