import Mathlib.Data.List.Nodup
import ReceiptPrinter.Proofs.Lookup
import ReceiptPrinter.Template.Record

/-! # Records — what a record keeps of the fields that were set

    A field is set in its place if there is one of its name, and behind the others
    if there is none.  So the names that a record has never become the same but for
    the case of ASCII letters (`distinct_ofList`), and at most one field is found by
    a name.

    Setting a field changes what is found by its name, in any case, and nothing else
    (`member?_insert`).  From this, and from what it does to the names
    (`names_insert`), follows what a record says after any history of fields: the
    values set last under the names set first (`history_of_ofList`). -/

namespace ReceiptPrinter.Record

variable {α : Type}

/-- Records whose names differ in more than the case of ASCII letters. -/
def Distinct (r : Record α) : Prop :=
  (r.names.map Text.foldCase).Nodup

/-- A new name is set behind the others. -/
theorem setField_of_new {name : String} {value : α} {l : List (String × α)}
    (h : ∀ field ∈ l, Text.sameName field.1 name = false) :
    setField name value l = l ++ [(name, value)] := by
  induction l with
  | nil => rfl
  | cons field rest ih =>
      rw [List.forall_mem_cons] at h
      rw [setField, if_neg (by rw [h.1]; exact Bool.false_ne_true), ih h.2]
      rfl

/-- A name that is there is set in its place. -/
theorem names_setField_of_old {name : String} {value : α} {l : List (String × α)}
    (h : ∃ field ∈ l, Text.sameName field.1 name = true) :
    (setField name value l).map Prod.fst = l.map Prod.fst := by
  induction l with
  | nil =>
      obtain ⟨field, hf, -⟩ := h
      cases hf
  | cons first rest ih =>
      obtain ⟨spelling, old⟩ := first
      rw [setField]
      by_cases here : Text.sameName spelling name = true
      · rw [if_pos here]
        rfl
      · rw [if_neg here, List.map_cons, ih]
        · rfl
        · obtain ⟨field, hf, same⟩ := h
          rcases List.mem_cons.mp hf with rfl | hf
          · exact absurd same here
          · exact ⟨field, hf, same⟩

/-- A field that is set keeps the names, or gets its own behind them if it is new. -/
theorem names_insert (r : Record α) (name : String) (value : α) :
    (r.insert name value).names
      = if ∃ field ∈ r.fields, Text.sameName field.1 name = true then r.names
        else r.names ++ [name] := by
  by_cases there : ∃ field ∈ r.fields, Text.sameName field.1 name = true
  · rw [if_pos there]
    exact names_setField_of_old there
  · rw [if_neg there, names, insert, setField_of_new, List.map_append]
    · rfl
    · intro field hf
      rw [← Bool.not_eq_true]
      exact fun same => there ⟨field, hf, same⟩

theorem mem_names_insert {r : Record α} {name other : String} {value : α}
    (h : other ∈ (r.insert name value).names) : other ∈ r.names ∨ other = name := by
  rw [names_insert] at h
  by_cases there : ∃ field ∈ r.fields, Text.sameName field.1 name = true
  · rw [if_pos there] at h
    exact .inl h
  · rw [if_neg there, List.mem_append, List.mem_singleton] at h
    exact h

/-- Setting a field keeps the names different. -/
theorem Distinct.insert {r : Record α} (h : r.Distinct) (name : String) (value : α) :
    (r.insert name value).Distinct := by
  rw [Distinct, names_insert]
  by_cases there : ∃ field ∈ r.fields, Text.sameName field.1 name = true
  · rw [if_pos there]
    exact h
  · rw [if_neg there, List.map_append, List.nodup_append]
    refine ⟨h, List.nodup_singleton _, ?_⟩
    intro x hx y hy same
    obtain ⟨spelling, hs, rfl⟩ := List.mem_map.mp hx
    obtain ⟨field, hf, rfl⟩ := List.mem_map.mp hs
    rw [List.map_singleton, List.mem_singleton] at hy
    exact there ⟨field, hf, (Text.sameName_iff _ _).mpr (same.trans hy)⟩

theorem distinct_ofList (l : List (String × α)) : (ofList l).Distinct :=
  List.foldlRecOn l _ List.nodup_nil fun _ h field _ => h.insert field.1 field.2

/-- A record made from a list has no names but those in the list. -/
theorem names_ofList_subset (l : List (String × α)) : (ofList l).names ⊆ l.map Prod.fst := by
  refine List.foldlRecOn (motive := fun r : Record α => r.names ⊆ l.map Prod.fst) l _
    (List.nil_subset _) fun r h field hf other ho => ?_
  rcases mem_names_insert ho with ho | rfl
  · exact h ho
  · exact List.mem_map_of_mem hf

/-- What holds of the names in a list holds of those of the record made from it. -/
theorem forall_mem_ofList {P : String → Prop} {l : List (String × α)}
    (h : ∀ field ∈ l, P field.1) : ∀ field ∈ (ofList l).fields, P field.1 := by
  intro field hf
  have listed := names_ofList_subset l (List.mem_map_of_mem hf)
  obtain ⟨other, ho, same⟩ := List.mem_map.mp listed
  exact same ▸ h other ho

/-- Fields of one name are one field. -/
theorem Distinct.eq_of_sameName {r : Record α} (h : r.Distinct) {x y : String × α}
    (hx : x ∈ r.fields) (hy : y ∈ r.fields) (same : Text.sameName x.1 y.1 = true) : x = y := by
  rw [Distinct, names, List.map_map] at h
  exact List.inj_on_of_nodup_map h hx hy ((Text.sameName_iff _ _).mp same)

/-- A field is found by its own name. -/
theorem Distinct.member?_of_mem {r : Record α} (h : r.Distinct) {name : String} {v : α}
    (hf : (name, v) ∈ r.fields) : r.member? name = some v := by
  have found : r.fields.find? (fun other => Text.sameName other.1 name) = some (name, v) :=
    find?_of_unique hf (Text.sameName_refl name) fun _ ho same => h.eq_of_sameName ho hf same
  rw [member?, found]
  rfl

/-! ## Histories -/

/-- Among fields, the one that is set is found by its name in any case, and no other
    changes. -/
theorem find?_setField (name : String) (value : α) (other : String) (l : List (String × α)) :
    ((setField name value l).find? fun field => Text.sameName field.1 other).map Prod.snd
      = if Text.sameName name other then some value
        else (l.find? fun field => Text.sameName field.1 other).map Prod.snd := by
  induction l with
  | nil =>
      rw [setField, List.find?_singleton]
      split <;> rfl
  | cons first rest ih =>
      obtain ⟨spelling, old⟩ := first
      rw [setField]
      by_cases here : Text.sameName spelling name = true
      · have hsame : Text.sameName spelling other = Text.sameName name other := by
          rw [Text.sameName, Text.sameName, (Text.sameName_iff _ _).mp here]
        rw [if_pos here, List.find?_cons, List.find?_cons, hsame]
        cases Text.sameName name other <;> rfl
      · rw [if_neg here, List.find?_cons, List.find?_cons]
        cases hother : Text.sameName spelling other with
        | false => exact ih
        | true =>
            -- A field of another name stands in the way of none but its own.
            have hname : ¬ Text.sameName name other = true := by
              rw [Text.sameName_comm]
              exact fun h => here (Text.sameName_trans hother h)
            rw [if_neg hname]

theorem member?_insert (r : Record α) (name : String) (value : α) (other : String) :
    (r.insert name value).member? other
      = if Text.sameName name other then some value else r.member? other :=
  find?_setField name value other r.fields

/-- After more fields the last of a name counts, and if there is none the field from
    before. -/
theorem member?_foldl (l : List (String × α)) (r : Record α) (name : String) :
    (l.foldl (fun r field => r.insert field.1 field.2) r).member? name
      = ((l.reverse.find? fun field => Text.sameName field.1 name).map Prod.snd).or
          (r.member? name) := by
  induction l generalizing r with
  | nil => rfl
  | cons field rest ih =>
      rw [List.foldl_cons, ih, member?_insert, List.reverse_cons, List.find?_append,
        List.find?_singleton]
      cases rest.reverse.find? fun field => Text.sameName field.1 name with
      | some last => rfl
      | none => cases Text.sameName field.1 name <;> rfl

theorem isNone_member?_iff {r : Record α} {name : String} :
    (r.member? name).isNone = true
      ↔ ¬ ∃ field ∈ r.fields, Text.sameName field.1 name = true := by
  rw [member?, Option.isNone_map, Option.isNone_iff_eq_none, List.find?_eq_none]
  simp

theorem member?_of_sameName (r : Record α) {name other : String}
    (same : Text.sameName name other = true) : r.member? name = r.member? other := by
  have hfold := (Text.sameName_iff _ _).mp same
  simp only [member?, Text.sameName, hfold]

/-- A field that is set is there, and those of other names are there if they were. -/
theorem isNone_member?_insert (r : Record α) (name : String) (value : α) (other : String) :
    ((r.insert name value).member? other).isNone
      = (decide (Text.sameName other name = false) && (r.member? other).isNone) := by
  rw [member?_insert, Text.sameName_comm other]
  cases Text.sameName name other <;> rfl

/-- A field that is set where one of its name is there brings no name. -/
theorem isNone_member?_insert_of_old {r : Record α} {name : String}
    (old : ¬ (r.member? name).isNone = true) (value : α) (other : String) :
    ((r.insert name value).member? other).isNone = (r.member? other).isNone := by
  rw [isNone_member?_insert]
  cases hsame : Text.sameName other name with
  | false => rfl
  | true =>
      rw [r.member?_of_sameName hsame]
      exact (eq_false_of_ne_true old).symm

/-- After more fields there are names behind the others, the first spelling of each
    that was not there. -/
theorem names_foldl (l : List (String × α)) (r : Record α) :
    (l.foldl (fun r field => r.insert field.1 field.2) r).names
      = r.names ++ ((l.map Prod.fst).filter fun name => (r.member? name).isNone).eraseDupsBy
          Text.sameName := by
  induction l generalizing r with
  | nil => simp
  | cons field rest ih =>
      obtain ⟨name, value⟩ := field
      rw [List.foldl_cons, ih, names_insert, List.map_cons]
      by_cases there : ∃ field ∈ r.fields, Text.sameName field.1 name = true
      · have old : ¬ (r.member? name).isNone = true := fun h => isNone_member?_iff.mp h there
        simp only [isNone_member?_insert_of_old old]
        rw [if_pos there,
          List.filter_cons_of_neg (p := fun other => (r.member? other).isNone) old]
      · -- The name is listed here, and behind it those that are neither there nor the same.
        have new := isNone_member?_iff.mpr there
        simp only [isNone_member?_insert]
        rw [if_neg there, List.filter_cons_of_pos (p := fun other => (r.member? other).isNone) new,
          List.eraseDupsBy_cons, List.filter_filter, List.append_assoc]
        rfl

/-- **WHAT A RECORD SAYS AFTER ANY HISTORY OF FIELDS.**  No two of its names are the
    same but for the case of ASCII letters.  The value of a name is the last that was
    set under it, in any case.  The names are the first spelling of each, in the order
    in which they came. -/
theorem history_of_ofList (l : List (String × α)) :
    (ofList l).Distinct
      ∧ (∀ name, (ofList l).member? name
          = (l.reverse.find? fun field => Text.sameName field.1 name).map Prod.snd)
      ∧ (ofList l).names = (l.map Prod.fst).eraseDupsBy Text.sameName := by
  refine ⟨distinct_ofList l, fun name => ?_, ?_⟩
  · rw [ofList, member?_foldl]
    exact Option.or_none
  · rw [ofList, names_foldl]
    have hall : (l.map Prod.fst).filter (fun name => ((empty : Record α).member? name).isNone)
        = l.map Prod.fst := List.filter_eq_self.mpr fun _ _ => rfl
    rw [hall]
    rfl

end ReceiptPrinter.Record
