import ReceiptPrinter.Json.Basic
import ReceiptPrinter.Proofs.Template.Records
import ReceiptPrinter.Proofs.Text.Lowercase

/-! # Paths — JSON values by their keys

    A JSON object becomes a context in several stages: its fields are set in a
    record, which merges names that differ in the case of ASCII letters; the
    fields of the outermost record are bound by their lower case; and a path is
    looked up by its longest bound prefix, then member by member.

    Each stage could lose a field to another one.  None of them does if no key
    has a dot and the keys of each object differ in lower case: the record has
    all fields, since its way of comparing names is the finer one; no prefix of
    several segments is bound, since lower case makes no dots; and the member of
    a name is the field of that key.  So a path of keys stands for the value that
    they lead to (`get?_of_leads`). -/

namespace ReceiptPrinter

/-! ## Keys that lead to a value -/

namespace Json

/-- Keys that lead through objects to a value. -/
inductive Leads : Json → List String → Json → Prop
  | last {fields : List (String × Json)} {key : String} {v : Json} (field : (key, v) ∈ fields) :
      Leads (.object fields) [key] v
  | inner {fields : List (String × Json)} {key : String} {keys : List String} {j v : Json}
      (field : (key, j) ∈ fields) (further : Leads j keys v) :
      Leads (.object fields) (key :: keys) v

/-- Fields whose keys have no dots and differ in lower case. -/
structure Distinct (fields : List (String × Json)) : Prop where
  dotless : ∀ field ∈ fields, '.' ∉ field.1.toList
  nodup : (fields.map fun field => Text.lowercase field.1).Nodup

/-- Values in which every object, at each level of nested objects, has such
    fields. -/
inductive Addressable : Json → Prop
  | object {fields : List (String × Json)} (distinct : Distinct fields)
      (inner : ∀ field ∈ fields, Addressable field.2) : Addressable (.object fields)
  | other {j : Json} (h : ∀ fields, j ≠ .object fields) : Addressable j

/-- Whether a value is nothing, a truth value, a number or a text. -/
def isScalar : Json → Bool
  | .array _ => false
  | .object _ => false
  | _ => true

end Json

/-! ## Splitting at dots -/

namespace Text

theorem splitAtEach_eq_splitOn (sep : Char) (cs : List Char) :
    splitAtEach sep cs = cs.splitOn sep := by
  induction cs with
  | nil => exact (List.splitOn_nil sep).symm
  | cons c rest ih =>
      rw [splitAtEach, ih, List.splitOn_cons_eq_if_modifyHead]
      by_cases hc : c = sep
      · rw [if_pos hc, if_pos (beq_iff_eq.mpr hc)]
      · rw [if_neg hc, if_neg (mt beq_iff_eq.mp hc)]
        cases h : rest.splitOn sep with
        | nil => exact absurd h (List.splitOn_ne_nil sep rest)
        | cons piece more => rfl

theorem joinWith_eq_intercalate (sep : Char) (pieces : List (List Char)) :
    joinWith sep pieces = [sep].intercalate pieces := by
  induction pieces with
  | nil => rfl
  | cons piece more ih =>
      cases more with
      | nil => exact List.intercalate_singleton.symm
      | cons next more =>
          rw [joinWith.eq_3 _ _ _ (List.cons_ne_nil _ _), ih, List.intercalate_cons_cons,
            List.append_assoc]
          rfl

/-- Keys without dots are the segments of the path that they make, whatever follows
    it. -/
theorem splitAtEach_path {keys : List String} (hne : keys ≠ [])
    (dotless : ∀ key ∈ keys, '.' ∉ key.toList) :
    splitAtEach '.' (".".intercalate keys).toList = keys.map String.toList := by
  rw [splitAtEach_eq_splitOn, String.toList_intercalate]
  refine List.splitOn_intercalate '.' ?_ (mt List.map_eq_nil_iff.mp hne)
  intro l hl
  obtain ⟨key, hk, rfl⟩ := List.mem_map.mp hl
  exact dotless key hk

theorem splitAtEach_path_append {keys : List String} (hne : keys ≠ [])
    (dotless : ∀ key ∈ keys, '.' ∉ key.toList) (ext : String) :
    splitAtEach '.' (".".intercalate keys ++ "." ++ ext).toList
      = keys.map String.toList ++ splitAtEach '.' ext.toList := by
  have hpath := splitAtEach_path hne dotless
  rw [splitAtEach_eq_splitOn] at hpath
  rw [String.toList_append, String.toList_append, List.append_assoc, splitAtEach_eq_splitOn,
    splitAtEach_eq_splitOn, ← hpath]
  exact List.splitOn_append_cons_self _ _

end Text

/-! ## Records -/

namespace Json

/-- The fields of an object as values. -/
def values (fields : List (String × Json)) : List (String × Value) :=
  fields.map fun field => (field.1, ValueOf.ofJson field.2)

variable {fields : List (String × Json)} {key : String} {j v : Json}

/-- A record of fields that differ in lower case has all of them, in their order. -/
theorem ofFields_of_nodup (nodup : (fields.map fun field => Text.lowercase field.1).Nodup)
    (r : Record Value)
    (new : ∀ field ∈ fields, ∀ old ∈ r.fields, Text.lowercase old.1 ≠ Text.lowercase field.1) :
    ValueOf.ofFields r fields = ⟨r.fields ++ values fields⟩ := by
  induction fields generalizing r with
  | nil =>
      rw [ValueOf.ofFields, values, List.map_nil, List.append_nil]
  | cons field rest ih =>
      obtain ⟨key, j⟩ := field
      rw [List.map_cons, List.nodup_cons] at nodup
      rw [List.forall_mem_cons] at new
      have hset : r.insert key (ValueOf.ofJson j) = ⟨r.fields ++ [(key, ValueOf.ofJson j)]⟩ := by
        rw [Record.insert, Record.setField_of_new]
        intro old ho
        rw [← Bool.not_eq_true]
        exact fun same => new.1 old ho (Text.lowercase_of_sameName same)
      rw [ValueOf.ofFields, hset, ih nodup.2]
      · rw [values, values, List.map_cons, List.append_assoc]
        rfl
      · intro field hf old ho
        rcases List.mem_append.mp ho with ho | ho
        · exact new.2 field hf old ho
        · obtain rfl := List.mem_singleton.mp ho
          intro same
          refine nodup.1 ?_
          rw [same]
          exact List.mem_map_of_mem hf

theorem Distinct.record (h : Distinct fields) :
    ValueOf.ofJson (.object fields) = .record ⟨values fields⟩ := by
  rw [ValueOf.ofJson, ofFields_of_nodup h.nodup .empty (by intro _ _ _ ho; cases ho)]
  rfl

/-- Keys that differ in lower case are different names of fields. -/
theorem Distinct.distinct (h : Distinct fields) : Record.Distinct ⟨values fields⟩ := by
  rw [Record.Distinct, Record.names, values, List.map_map, List.map_map, List.Nodup,
    List.pairwise_map]
  refine (List.pairwise_map.mp h.nodup).imp fun different same => different ?_
  exact Text.lowercase_of_sameName ((Text.sameName_iff _ _).mpr same)

/-- The member of a key's name is the field of that key. -/
theorem Distinct.member? (h : Distinct fields) (field : (key, v) ∈ fields) :
    (ValueOf.ofJson (.object fields)).member? key = some (ValueOf.ofJson v) := by
  rw [h.record]
  exact h.distinct.member?_of_mem (List.mem_map.mpr ⟨_, field, rfl⟩)

end Json

/-! ## Contexts -/

namespace Context

open Json (Distinct values)

variable {fields : List (String × Json)} {key : String} {v : Json}

/-- The members of an object are bound in their order, so the last stands in front. -/
theorem bindings_addObject {o : Type} [Members o] (c : Context o) (x : o)
    (under : Option String) :
    (c.addObject x under).bindings
      = ((Members.names x).map fun name =>
          (Text.lowercase (fieldKey under name), (Members.member? x name).getD .null)).reverse
          ++ c.bindings := by
  rw [addObject]
  generalize Members.names x = names
  induction names generalizing c with
  | nil => rfl
  | cons name rest ih =>
      rw [List.foldl_cons, ih, List.map_cons, List.reverse_cons, List.append_assoc]
      rfl

/-- So are the fields of a record, each with its own value. -/
theorem bindings_addRecord (c : Context) {r : Record Value} (distinct : r.Distinct)
    (under : Option String) :
    (c.addRecord r under).bindings
      = (r.fields.map fun field => (Text.lowercase (fieldKey under field.1), field.2)).reverse
          ++ c.bindings := by
  have fields : (r.names.map fun name =>
        (Text.lowercase (fieldKey under name), (r.member? name).getD .null))
      = r.fields.map fun field => (Text.lowercase (fieldKey under field.1), field.2) := by
    rw [Record.names, List.map_map]
    refine List.map_congr_left fun field hf => ?_
    show (_, (r.member? field.1).getD .null) = _
    rw [distinct.member?_of_mem hf]
    rfl
  rw [addRecord, bindings_addObject, ← fields]
  rfl

/-- The bindings of an object are its fields by their lower case, the last first. -/
theorem bindings_ofJson (h : Distinct fields) :
    (ofJson (.object fields)).bindings
      = (fields.map fun field => (Text.lowercase field.1, ValueOf.ofJson field.2)).reverse := by
  have context : ofJson (.object fields) = empty.addRecord ⟨values fields⟩ none := by
    rw [ofJson, h.record]
    rfl
  rw [context, bindings_addRecord empty h.distinct, values, List.map_map, empty, List.append_nil]
  rfl

/-- A key is bound to its field. -/
theorem bound?_key (h : Distinct fields) (field : (key, v) ∈ fields) :
    (ofJson (.object fields)).bound? key = some (ValueOf.ofJson v) := by
  rw [bound?, bindings_ofJson h]
  refine lookup_of_mem ?_ (List.mem_reverse.mpr (List.mem_map.mpr ⟨_, field, rfl⟩))
  rw [List.map_reverse, List.map_map, List.nodup_reverse]
  exact h.nodup

/-- Nothing is bound to a path with a dot in it. -/
theorem bound?_dotted (h : Distinct fields) {path : String} (dot : '.' ∈ path.toList) :
    (ofJson (.object fields)).bound? path = none := by
  rw [bound?, bindings_ofJson h, List.lookup_eq_none_iff]
  intro p hp
  obtain ⟨field, hf, rfl⟩ := List.mem_map.mp (List.mem_reverse.mp hp)
  rw [bne_iff_ne]
  intro (same : Text.lowercase path = Text.lowercase field.1)
  rw [← Text.dot_mem_lowercase_iff, same, Text.dot_mem_lowercase_iff] at dot
  exact h.dotless field hf dot

/-- A path of several segments has a dot in it. -/
theorem dot_mem_pathOf (first next : List Char) (more : List (List Char)) :
    '.' ∈ (pathOf (first :: next :: more)).toList := by
  rw [pathOf, String.toList_ofList, Text.joinWith_eq_intercalate, List.intercalate_cons_cons]
  exact List.mem_append_left _ (List.mem_append_right _ (List.mem_singleton_self _))

/-- Only the first segment of a path is bound, so the others name members. -/
theorem longestBound?_first (h : Distinct fields) (field : (key, v) ∈ fields)
    (segments : List (List Char)) (limit : Nat) :
    (ofJson (.object fields)).longestBound? (key.toList :: segments) (limit + 1)
      = some (ValueOf.ofJson v, segments.map String.ofList) := by
  have hkey : pathOf [key.toList] = key := String.ofList_toList
  induction limit with
  | zero =>
      rw [longestBound?, List.take_succ_cons, List.take_zero, hkey, bound?_key h field]
      rfl
  | succ limit ih =>
      cases segments with
      | nil =>
          rw [longestBound?, List.take_succ_cons, List.take_nil, hkey, bound?_key h field]
          rfl
      | cons next more =>
          -- Two segments or more make a path with a dot in it.
          rw [longestBound?, List.take_succ_cons, List.take_succ_cons,
            bound?_dotted h (dot_mem_pathOf _ _ _)]
          exact ih

/-- What a path stands for whose first segment is a key. -/
theorem get?_of_segments (h : Distinct fields) (field : (key, v) ∈ fields) {path : String}
    {segments : List (List Char)}
    (hpath : Text.splitAtEach '.' path.toList = key.toList :: segments) :
    (ofJson (.object fields)).get? path
      = resolve? (ValueOf.ofJson v) (segments.map String.ofList) := by
  rw [get?, hpath]
  dsimp only
  rw [List.length_cons, longestBound?_first h field]
  rfl

end Context

/-! ## Values at the end of a path -/

section

variable {j v : Json} {keys : List String}

theorem Json.Addressable.of_field {fields : List (String × Json)} {key : String}
    (h : (Json.object fields).Addressable) (field : (key, v) ∈ fields) :
    Json.Distinct fields ∧ v.Addressable := by
  generalize ho : Json.object fields = o at h
  cases h with
  | object distinct inner =>
      obtain rfl := Json.object.inj ho
      exact ⟨distinct, inner _ field⟩
  | other h => exact absurd ho.symm (h fields)

/-- The members that keys name are the values that they lead to. -/
theorem resolve?_of_leads (h : j.Leads keys v) (addressable : j.Addressable)
    (names : List String) :
    Context.resolve? (ValueOf.ofJson j) (keys ++ names)
      = Context.resolve? (ValueOf.ofJson v) names := by
  induction h with
  | last field =>
      obtain ⟨distinct, -⟩ := addressable.of_field field
      rw [List.singleton_append, Context.resolve?, distinct.member? field, if_neg]
      · rfl
      · exact Bool.false_ne_true
  | inner field further ih =>
      obtain ⟨distinct, inner⟩ := addressable.of_field field
      rw [List.cons_append, Context.resolve?, distinct.member? field, if_neg]
      · exact ih inner
      · exact Bool.false_ne_true

/-- Keys that lead to a value have no dots. -/
theorem dotless_of_leads (h : j.Leads keys v) (addressable : j.Addressable) :
    keys ≠ [] ∧ ∀ key ∈ keys, '.' ∉ key.toList := by
  induction h with
  | last field =>
      obtain ⟨distinct, -⟩ := addressable.of_field field
      exact ⟨List.cons_ne_nil _ _, List.forall_mem_singleton.mpr (distinct.dotless _ field)⟩
  | inner field further ih =>
      obtain ⟨distinct, inner⟩ := addressable.of_field field
      exact ⟨List.cons_ne_nil _ _,
        List.forall_mem_cons.mpr ⟨distinct.dotless _ field, (ih inner).2⟩⟩

/-- A path that begins with such keys stands for what its other segments name in
    their value. -/
theorem get?_append (h : j.Leads keys v) (addressable : j.Addressable) {path : String}
    {segments : List (List Char)}
    (hpath : Text.splitAtEach '.' path.toList = keys.map String.toList ++ segments) :
    (Context.ofJson j).get? path
      = Context.resolve? (ValueOf.ofJson v) (segments.map String.ofList) := by
  cases h with
  | last field =>
      obtain ⟨distinct, -⟩ := addressable.of_field field
      exact Context.get?_of_segments distinct field hpath
  | @inner fields key keys j v field further =>
      obtain ⟨distinct, inner⟩ := addressable.of_field field
      have hkeys : (keys.map String.toList).map String.ofList = keys := by
        rw [List.map_map]
        exact List.map_id'' (fun key => String.ofList_toList) keys
      have hnames : (keys.map String.toList ++ segments).map String.ofList
          = keys ++ segments.map String.ofList := by
        rw [List.map_append, hkeys]
      -- The first key is bound in the context, and those behind it name members.
      rw [Context.get?_of_segments distinct field hpath, ← resolve?_of_leads further inner]
      exact congrArg (Context.resolve? (ValueOf.ofJson j)) hnames

/-- Nothing has members of nothing, of truth values, of numbers and of texts. -/
theorem resolve?_of_scalar (scalar : v.isScalar = true) {names : List String} (hne : names ≠ []) :
    Context.resolve? (ValueOf.ofJson v) names = none := by
  cases names with
  | nil => exact absurd rfl hne
  | cons name rest =>
      cases v with
      | integer n =>
          rw [ValueOf.ofJson]
          split <;> rfl
      | array items => cases scalar
      | object fields => cases scalar
      | null | bool | float | text => rfl

/-- **A VALUE IS REACHED BY THE PATH OF ITS KEYS**.  If in the objects at each level
    keys have no dots and differ in lower case, the path of keys that lead to a
    value stands for that value; and behind one that is nothing, a truth value,
    a number or a text no longer path stands for anything. -/
theorem get?_of_leads (addressable : j.Addressable) (leads : j.Leads keys v) :
    (Context.ofJson j).get? (".".intercalate keys) = some (ValueOf.ofJson v)
      ∧ (v.isScalar = true → ∀ ext : String,
          (Context.ofJson j).get? (".".intercalate keys ++ "." ++ ext) = none) := by
  obtain ⟨hne, dotless⟩ := dotless_of_leads leads addressable
  constructor
  · have hpath := Text.splitAtEach_path hne dotless
    rw [← List.append_nil (keys.map String.toList)] at hpath
    rw [get?_append leads addressable hpath]
    rfl
  · intro scalar ext
    rw [get?_append leads addressable (Text.splitAtEach_path_append hne dotless ext)]
    exact resolve?_of_scalar scalar (mt List.map_eq_nil_iff.mp (Text.splitAtEach_ne_nil _ _))

end

/-- A purchase with the name of its customer two levels down. -/
def Json.purchase : Json :=
  .object [("Note", .null),
    ("Order", .object [("Customer", .object [("Name", .text "Ada")]), ("Paid", .bool true)])]

theorem Json.addressable_purchase : purchase.Addressable := by
  have customer : Addressable (.object [("Name", .text "Ada")]) :=
    .object ⟨by decide +kernel, by decide +kernel⟩ (List.forall_mem_singleton.mpr (.other nofun))
  refine .object ⟨by decide +kernel, by decide +kernel⟩
    (List.forall_mem_cons.mpr ⟨.other nofun, List.forall_mem_singleton.mpr ?_⟩)
  exact .object ⟨by decide +kernel, by decide +kernel⟩
    (List.forall_mem_cons.mpr ⟨customer, List.forall_mem_singleton.mpr (.other nofun)⟩)

theorem Json.leads_purchase :
    purchase.Leads ["Order", "Customer", "Name"] (.text "Ada") :=
  .inner (.tail _ (.head _)) (.inner (.head _) (.last (.head _)))

theorem get?_purchase :
    Json.purchase.Addressable
      ∧ Json.purchase.Leads ["Order", "Customer", "Name"] (.text "Ada")
      ∧ (Context.ofJson Json.purchase).get? "Order.Customer.Name" = some (.text "Ada")
      ∧ ∀ ext : String,
          (Context.ofJson Json.purchase).get? ("Order.Customer.Name" ++ "." ++ ext) = none := by
  obtain ⟨reached, unreached⟩ := get?_of_leads Json.addressable_purchase Json.leads_purchase
  exact ⟨Json.addressable_purchase, Json.leads_purchase, reached, unreached rfl⟩

end ReceiptPrinter
