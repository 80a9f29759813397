import ReceiptPrinter.Proofs.Template.Beginnings

/-! # Spelling — paths in another case

    The case of letters is put aside in three ways between a path and its value:
    the whole path is taken in lower case, each shorter beginning of it is taken in
    lower case by itself, and the segments behind the one that is bound are compared
    with the names of members letter by letter.  The lower case of a beginning need
    not be the beginning of the lower case, since that of a sigma depends on what
    follows it.

    Two paths that are the same but for the case of ASCII letters have dots at the
    same places, so they have the same beginnings but for that case
    (`Context.sameName_beginning`), and their segments name the same members of any
    value (`Context.resolve?_of_folded`).  So they are looked up at the same binding
    and stand for the same value (`Context.get?_of_sameName`). -/

namespace ReceiptPrinter

/-! ## Splitting and joining -/

namespace Text

variable {sep : Char} {f : Char → Char}

/-- A map that neither makes nor takes away separators leaves the pieces as they are
    but for their characters. -/
theorem splitAtEach_map (keeps : ∀ c, f c = sep ↔ c = sep) (cs : List Char) :
    splitAtEach sep (cs.map f) = (splitAtEach sep cs).map (List.map f) := by
  induction cs with
  | nil => rfl
  | cons c rest ih =>
      rw [List.map_cons, splitAtEach, splitAtEach, ih]
      by_cases hc : c = sep
      · rw [if_pos hc, if_pos ((keeps c).mpr hc)]
        rfl
      · rw [if_neg hc, if_neg (mt (keeps c).mp hc)]
        cases splitAtEach sep rest <;> rfl

theorem joinWith_map (keeps : f sep = sep) (pieces : List (List Char)) :
    joinWith sep (pieces.map (List.map f)) = (joinWith sep pieces).map f := by
  induction pieces with
  | nil => rfl
  | cons piece more ih =>
      cases more with
      | nil => rfl
      | cons next others =>
          rw [List.map_cons, joinWith.eq_3 _ _ _ (List.cons_ne_nil _ _),
            joinWith.eq_3 _ _ _ (mt List.map_eq_nil_iff.mp (List.cons_ne_nil _ _)), ih,
            List.map_append, List.map_cons, keeps]

theorem toLower_eq_dot_iff (c : Char) : c.toLower = '.' ↔ c = '.' := by
  have same : (c.toLower = '.') = (c = '.') := toLower_congr (· = '.') (by decide) c
  rw [same]

theorem foldCase_ofList (cs : List Char) : foldCase (String.ofList cs) = cs.map Char.toLower := by
  rw [foldCase, String.toList_ofList]

end Text

/-! ## Members -/

/-- Names that are the same but for the case of ASCII letters name the same member. -/
theorem ValueOf.member?_of_sameName (v : Value) {name other : String}
    (same : Text.foldCase name = Text.foldCase other) : v.member? name = v.member? other := by
  have compared : ∀ s : String, Text.sameName s name = Text.sameName s other := by
    intro s
    rw [Text.sameName, Text.sameName, same]
  cases v with
  | object x => simp only [member?, Members.member?, Record.member?, compared]
  | list items => simp only [member?, Text.sameName_comm name, Text.sameName_comm other, compared]
  | _ => rfl

namespace Context

variable {path other : String}

/-- So do such names one after the other. -/
theorem resolve?_of_folded {names others : List String}
    (same : names.map Text.foldCase = others.map Text.foldCase) (v : Value) :
    resolve? v names = resolve? v others := by
  induction names generalizing others v with
  | nil => rw [List.map_eq_nil_iff.mp same.symm]
  | cons name rest ih =>
      cases others with
      | nil => cases same
      | cons first more =>
          rw [List.map_cons, List.map_cons, List.cons.injEq] at same
          rw [resolve?, resolve?, v.member?_of_sameName same.1]
          simp only [ih same.2]

/-! ## Segments -/

/-- The segments of a path without the case of its letters. -/
theorem segments_folded (path : String) :
    (segments path).map (List.map Char.toLower)
      = Text.splitAtEach '.' (Text.foldCase path) := by
  rw [segments, Text.foldCase, Text.splitAtEach_map Text.toLower_eq_dot_iff]

theorem segments_of_sameName (same : Text.sameName path other = true) :
    (segments path).map (List.map Char.toLower)
      = (segments other).map (List.map Char.toLower) := by
  rw [segments_folded, segments_folded, (Text.sameName_iff path other).mp same]

/-- Paths that are the same but for the case of ASCII letters begin alike. -/
theorem sameName_beginning (same : Text.sameName path other = true) (k : Nat) :
    Text.sameName (beginning path k) (beginning other k) = true := by
  have keeps : Char.toLower '.' = '.' := (Text.toLower_eq_dot_iff '.').mpr rfl
  rw [Text.sameName_iff, beginning, beginning, pathOf, pathOf, Text.foldCase_ofList,
    Text.foldCase_ofList, ← Text.joinWith_map keeps, ← Text.joinWith_map keeps, List.map_take,
    List.map_take, segments_of_sameName same]

theorem bound?_of_sameName (c : Context) (same : Text.sameName path other = true) :
    c.bound? path = c.bound? other := by
  rw [bound?, bound?, Text.lowercase_of_sameName same]

/-- Behind any number of segments they name the same members. -/
theorem resolve?_drop (same : Text.sameName path other = true) (k : Nat) (v : Value) :
    resolve? v ((names path).drop k) = resolve? v ((names other).drop k) := by
  have folded : ∀ s : String,
      (names s).map Text.foldCase = (segments s).map (List.map Char.toLower) := by
    intro s
    rw [names, List.map_map]
    exact List.map_congr_left fun piece _ => Text.foldCase_ofList piece
  refine resolve?_of_folded ?_ v
  rw [List.map_drop, List.map_drop, folded, folded, segments_of_sameName same]

/-! ## Lookups -/

/-- The search for a binding ends at the same number of segments. -/
theorem longestBound?_of_sameName (c : Context) (same : Text.sameName path other = true)
    (limit : Nat) :
    ((c.longestBound? (segments path) limit).bind fun (v, names) => resolve? v names)
      = (c.longestBound? (segments other) limit).bind fun (v, names) => resolve? v names := by
  induction limit with
  | zero => rfl
  | succ limit ih =>
      rw [longestBound?, longestBound?, ← beginning, ← beginning,
        c.bound?_of_sameName (sameName_beginning same (limit + 1))]
      cases c.bound? (beginning other (limit + 1)) with
      | none => exact ih
      | some v =>
          have named := resolve?_drop same (limit + 1) v
          rw [names, names, ← List.map_drop, ← List.map_drop] at named
          exact named

/-- **PATHS ARE LOOKED UP WITHOUT REGARD TO THE CASE OF ASCII LETTERS**, in every
    context and for every shape and depth of path.  Two spellings of a path stand for
    the same value or both for none.  They get there in the same way: each beginning
    of the one is bound to what that of the other is, and the segments behind it name
    the same member of whatever value is found there. -/
theorem get?_of_sameName (c : Context) (same : Text.sameName path other = true) :
    c.get? path = c.get? other
      ∧ ∀ k, c.bound? (beginning path k) = c.bound? (beginning other k)
        ∧ ∀ v : Value, resolve? v ((names path).drop k) = resolve? v ((names other).drop k) := by
  refine ⟨?_, fun k => ⟨c.bound?_of_sameName (sameName_beginning same k), resolve?_drop same k⟩⟩
  have length : (segments path).length = (segments other).length := by
    have lengths := congrArg List.length (segments_of_sameName same)
    rwa [List.length_map, List.length_map] at lengths
  rw [get?_eq, get?_eq, length]
  exact c.longestBound?_of_sameName same _

/-- A context with a key of two segments, and a list below a name that ends in a
    sigma. -/
def spelledContext : Context :=
  (empty.bind "Order.Customer" (.record ⟨[("Name", .text "Ada"), ("Note", .null)]⟩)).bind "ΟΔΟΣ"
    (.list [.text "a", .text "b"])

set_option maxRecDepth 20000 in
/-- A member behind a key, the length of a list, and a member of nothing. -/
theorem get?_spelledContext :
    Text.sameName "order.CUSTOMER.nAmE" "Order.Customer.Name" = true
      ∧ spelledContext.get? "order.CUSTOMER.nAmE" = some (.text "Ada")
      ∧ Text.sameName "ΟΔΟΣ.LENGTH" "ΟΔΟΣ.length" = true
      ∧ spelledContext.get? "ΟΔΟΣ.LENGTH" = some (.int 2)
      ∧ Text.sameName "ORDER.customer.note.Any" "Order.Customer.Note.any" = true
      ∧ spelledContext.get? "ORDER.customer.note.Any" = none := by
  have name : Text.sameName "order.CUSTOMER.nAmE" "Order.Customer.Name" = true := by
    decide +kernel
  have length : Text.sameName "ΟΔΟΣ.LENGTH" "ΟΔΟΣ.length" = true := by decide +kernel
  have note : Text.sameName "ORDER.customer.note.Any" "Order.Customer.Note.any" = true := by
    decide +kernel
  refine ⟨name, ?_, length, ?_, note, ?_⟩
  · rw [(get?_of_sameName spelledContext name).1]
    rfl
  · rw [(get?_of_sameName spelledContext length).1]
    rfl
  · rw [(get?_of_sameName spelledContext note).1]
    rfl

end Context

end ReceiptPrinter
