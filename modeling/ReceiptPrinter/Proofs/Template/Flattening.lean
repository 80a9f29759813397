import ReceiptPrinter.Proofs.Template.Binding

/-! # Flattening — a record bound as a whole or field by field

    A record below a name can be bound to the name, or each of its fields to the
    path of the name and its own.  A path of two segments or more that begins with
    the name is then looked up in two ways: the second segment names a member of
    the record, or the first two are a key.

    Names of members are compared but for the case of ASCII letters, keys by their
    lower case in any script.  Where the two compare the fields alike
    (`ComparedAlike`), both ways lead to the same value, and names of ASCII are
    always compared alike.  Others need not be: `É` and `é` are two members, but
    one key. -/

namespace ReceiptPrinter.Context

/-- The fields of a record whose keys below a name are the path of two segments are
    those that the second of them names. -/
def ComparedAlike (r : Record Value) (outer first second : String) : Prop :=
  ∀ field ∈ r.fields,
    Text.lowercase (outer ++ "." ++ field.1) = Text.lowercase (first ++ "." ++ second)
      ↔ Text.sameName field.1 second = true

variable {r : Record Value} {outer path first second : String} {more : List String}

/-! ## The first segments of a path -/

theorem segments_eq (path : String) : segments path = (names path).map String.toList := by
  rw [names, List.map_map]
  exact (List.map_id'' (fun _ => String.toList_ofList) _).symm

theorem beginning_one (h : names path = first :: more) : beginning path 1 = first := by
  rw [beginning, segments_eq, h]
  exact String.ofList_toList

theorem beginning_two (h : names path = first :: second :: more) :
    beginning path 2 = first ++ "." ++ second := by
  rw [beginning, segments_eq, h, ← String.toList_inj, String.toList_append, String.toList_append,
    List.append_assoc]
  exact String.toList_ofList

theorem length_segments (h : names path = first :: second :: more) :
    (segments path).length = more.length + 2 := by
  rw [segments_eq, h, List.length_map]
  rfl

theorem drop_segments (path : String) (k : Nat) :
    ((segments path).drop k).map String.ofList = (names path).drop k :=
  List.map_drop

/-! ## A record bound as a whole -/

/-- The segments behind the name of a record name its members. -/
theorem get?_bind_record (dotless : '.' ∉ outer.toList)
    (hpath : names path = first :: second :: more)
    (same : Text.lowercase first = Text.lowercase outer) :
    (empty.bind outer (.record r)).get? path
      = (r.member? second).bind fun member => resolve? member more := by
  have length := length_segments hpath
  have bound : (empty.bind outer (.record r)).bound? (beginning path 1) = some (.record r) := by
    rw [bound?_bind, beginning_one hpath, if_pos same]
  rw [get?_of_longest Nat.one_pos (by omega) bound, drop_segments, hpath]
  · rfl
  · -- What is longer has a dot, and the name has none.
    intro j hj hle
    rw [bound?_bind_of_ne]
    · rfl
    · intro other
      have dots := congrArg (fun s => s.toList.count '.') other
      simp only [Text.count_dot_lowercase, count_dot_beginning path hle,
        List.count_eq_zero.mpr dotless] at dots
      omega

/-! ## A record bound field by field -/

theorem fieldKey_of_not_blank (notBlank : Text.allBlank outer = false) (name : String) :
    fieldKey (some outer) name = outer ++ "." ++ name := by
  rw [fieldKey, if_neg]
  rintro rfl
  exact absurd notBlank (by decide)

theorem bindings_flattened (notBlank : Text.allBlank outer = false) (distinct : r.Distinct) :
    (empty.addRecord r (some outer)).bindings
      = (r.fields.map fun field =>
          (Text.lowercase (outer ++ "." ++ field.1), field.2)).reverse := by
  simp only [bindings_addRecord empty distinct, fieldKey_of_not_blank notBlank]
  exact List.append_nil _

/-- Nothing is bound to what has not just one dot. -/
theorem bound?_flattened_eq_none (notBlank : Text.allBlank outer = false)
    (distinct : r.Distinct) (dotless : '.' ∉ outer.toList)
    (fields : ∀ field ∈ r.fields, '.' ∉ field.1.toList)
    {key : String} (h : key.toList.count '.' ≠ 1) :
    (empty.addRecord r (some outer)).bound? key = none := by
  rw [bound?, bindings_flattened notBlank distinct, List.lookup_eq_none_iff]
  intro p hp
  obtain ⟨field, hf, rfl⟩ := List.mem_map.mp (List.mem_reverse.mp hp)
  rw [bne_iff_ne]
  intro (same : Text.lowercase key = Text.lowercase (outer ++ "." ++ field.1))
  have dots := congrArg (fun s => s.toList.count '.') same
  simp only [Text.count_dot_lowercase, String.toList_append, List.count_append,
    List.count_eq_zero.mpr dotless, List.count_eq_zero.mpr (fields field hf)] at dots
  exact h dots

/-- The key of a field is bound to what the member of its name is. -/
theorem bound?_flattened (notBlank : Text.allBlank outer = false) (distinct : r.Distinct)
    (alike : ComparedAlike r outer first second) :
    (empty.addRecord r (some outer)).bound? (first ++ "." ++ second) = r.member? second := by
  rw [bound?, bindings_flattened notBlank distinct, Record.member?]
  cases found : r.fields.find? fun field => Text.sameName field.1 second with
  | none =>
      rw [Option.map_none, List.lookup_eq_none_iff]
      intro p hp
      obtain ⟨field, hf, rfl⟩ := List.mem_map.mp (List.mem_reverse.mp hp)
      rw [bne_iff_ne]
      intro same
      exact List.find?_eq_none.mp found field hf ((alike field hf).mp same.symm)
  | some field =>
      have hf := List.mem_of_find?_eq_some found
      have named : Text.sameName field.1 second = true :=
        List.find?_some (p := fun f : String × Value => Text.sameName f.1 second) found
      rw [← (alike field hf).mpr named]
      refine lookup_of_unique (List.mem_reverse.mpr (List.mem_map.mpr ⟨field, hf, rfl⟩)) ?_
      -- Another field with that key would be named by the same segment.
      intro p hp same
      obtain ⟨other, ho, rfl⟩ := List.mem_map.mp (List.mem_reverse.mp hp)
      have also := (alike other ho).mp (same.trans ((alike field hf).mpr named))
      rw [Text.sameName_comm] at named
      rw [distinct.eq_of_sameName ho hf (Text.sameName_trans also named)]

/-- The segments behind a key name members of its value. -/
theorem get?_flattened (notBlank : Text.allBlank outer = false) (distinct : r.Distinct)
    (dotless : '.' ∉ outer.toList) (fields : ∀ field ∈ r.fields, '.' ∉ field.1.toList)
    (hpath : names path = first :: second :: more) :
    (empty.addRecord r (some outer)).get? path
      = ((empty.addRecord r (some outer)).bound? (first ++ "." ++ second)).bind fun member =>
          resolve? member more := by
  have length := length_segments hpath
  rw [get?_of_only Nat.two_pos (by omega), beginning_two hpath, drop_segments, hpath]
  · rfl
  · intro j hj hle hne
    refine bound?_flattened_eq_none notBlank distinct dotless fields ?_
    rw [count_dot_beginning path hle]
    omega

/-! ## The two together -/

/-- Names of ASCII are compared alike, whatever script the name of the record has. -/
theorem comparedAlike_of_ascii (dotless : '.' ∉ outer.toList)
    (fields : ∀ field ∈ r.fields, '.' ∉ field.1.toList)
    (ascii : ∀ field ∈ r.fields, Text.Ascii field.1) (asciiSecond : Text.Ascii second)
    (spelling : Text.lowercase (first ++ "." ++ second)
      = Text.lowercase (outer ++ "." ++ second)) :
    ComparedAlike r outer first second := by
  intro field hf
  constructor
  · exact Text.sameName_of_lowercase_below dotless (fields field hf) (ascii field hf) asciiSecond
  · intro named
    rw [spelling]
    exact Text.lowercase_of_sameName (Text.sameName_append _ named)

/-- **A RECORD BOUND FIELD BY FIELD STANDS FOR WHAT IT DOES AS A WHOLE.**  This holds
    for every path of two segments or more that begins with the name of the record,
    whether the member is there, is nothing or is missing, if the second segment is
    compared alike with the fields.  It is if it and their names are of ASCII, in
    whatever case they are written; the name in front may be of any script. -/
theorem get?_flattened_eq_whole (notBlank : Text.allBlank outer = false)
    (dotless : '.' ∉ outer.toList) {l : List (String × Value)}
    (fields : ∀ field ∈ l, '.' ∉ field.1.toList) (hpath : names path = first :: second :: more)
    (same : Text.lowercase first = Text.lowercase outer) :
    ∃ whole : Context,
      empty.add outer (.record (.ofList l)) = .ok whole
      ∧ (ComparedAlike (.ofList l) outer first second →
          (empty.addRecord (.ofList l) (some outer)).get? path = whole.get? path)
      ∧ ((∀ field ∈ l, Text.Ascii field.1) → Text.Ascii second →
          Text.lowercase (first ++ "." ++ second) = Text.lowercase (outer ++ "." ++ second) →
          (empty.addRecord (.ofList l) (some outer)).get? path = whole.get? path) := by
  have fieldsOfRecord : ∀ field ∈ (Record.ofList l).fields, '.' ∉ field.1.toList :=
    Record.forall_mem_ofList (P := fun name => '.' ∉ name.toList) fields
  have agree : ComparedAlike (.ofList l) outer first second →
      (empty.addRecord (.ofList l) (some outer)).get? path
        = (empty.bind outer (.record (.ofList l))).get? path := by
    intro alike
    have distinct := Record.distinct_ofList l
    rw [get?_flattened notBlank distinct dotless fieldsOfRecord hpath,
      get?_bind_record dotless hpath same, bound?_flattened notBlank distinct alike]
  refine ⟨empty.bind outer (.record (.ofList l)), ?_, agree, fun ascii asciiSecond spelling => ?_⟩
  · rw [add, notBlank]
    rfl
  · have asciiOfRecord := Record.forall_mem_ofList ascii
    exact agree
      (comparedAlike_of_ascii dotless fieldsOfRecord asciiOfRecord asciiSecond spelling)

/-- The fields of a purchase. -/
def purchaseFields : List (String × Value) :=
  [("Note", .null), ("Order", .record ⟨[("Paid", .bool true)]⟩)]

theorem get?_purchaseFields :
    Text.allBlank "Straße" = false ∧ '.' ∉ "Straße".toList
      ∧ (∀ field ∈ purchaseFields, '.' ∉ field.1.toList)
      ∧ names "STRAßE.order.PAID" = ["STRAßE", "order", "PAID"]
      ∧ Text.lowercase "STRAßE" = Text.lowercase "Straße"
      ∧ ∃ whole : Context,
          empty.add "Straße" (.record (.ofList purchaseFields)) = .ok whole
          ∧ whole.get? "STRAßE.order.PAID" = some (.bool true)
          ∧ (empty.addRecord (.ofList purchaseFields) (some "Straße")).get? "STRAßE.order.PAID"
            = some (.bool true) := by
  have notBlank : Text.allBlank "Straße" = false := by decide +kernel
  have dotless : '.' ∉ "Straße".toList := by decide +kernel
  have fields : ∀ field ∈ purchaseFields, '.' ∉ field.1.toList := by decide +kernel
  have hpath : names "STRAßE.order.PAID" = ["STRAßE", "order", "PAID"] := by decide +kernel
  have same : Text.lowercase "STRAßE" = Text.lowercase "Straße" := by decide +kernel
  obtain ⟨whole, bound, -, agree⟩ := get?_flattened_eq_whole notBlank dotless fields hpath same
  have flat : (empty.addRecord (.ofList purchaseFields) (some "Straße")).get? "STRAßE.order.PAID"
      = some (.bool true) := by rfl
  refine ⟨notBlank, dotless, fields, hpath, same, whole, bound, ?_, flat⟩
  rw [← agree (by decide +kernel) (by decide +kernel) (by decide +kernel), flat]

/-- A name in another case that ASCII does not have is a key, but no member. -/
example :
    ((empty.addRecord ⟨[("É", .int 1)]⟩ (some "P")).get? "P.é").isSome = true
      ∧ ((empty.bind "P" (.record ⟨[("É", .int 1)]⟩)).get? "P.é").isSome = false := by
  decide +kernel

end ReceiptPrinter.Context
