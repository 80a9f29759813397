import Mathlib.Data.List.Nodup

/-! # Lookup — what is found among things of different names

    A table is searched from its front, so the first of two things with one name
    hides the other.  In a table where no two have the same name, what is found
    by a name is just what has it. -/

namespace ReceiptPrinter

variable {α β : Type}

/-- What is the only one of its kind is found. -/
theorem find?_of_unique {p : α → Bool} {l : List α} {x : α} (hx : x ∈ l) (hp : p x = true)
    (unique : ∀ y ∈ l, p y = true → y = x) : l.find? p = some x := by
  obtain ⟨y, hy⟩ := Option.isSome_iff_exists.mp (List.find?_isSome.mpr ⟨x, hx, hp⟩)
  rw [hy, unique y (List.mem_of_find?_eq_some hy) (List.find?_some hy)]

/-- What is found by its name among things of different names. -/
theorem find?_name_eq_some_iff {name : α → String} {l : List α}
    (different : (l.map name).Nodup) {key : String} {x : α} :
    l.find? (name · == key) = some x ↔ x ∈ l ∧ name x = key := by
  constructor
  · intro h
    have hb := List.find?_some h
    exact ⟨List.mem_of_find?_eq_some h, beq_iff_eq.mp hb⟩
  · rintro ⟨hx, rfl⟩
    refine find?_of_unique hx (beq_self_eq_true _) fun y hy same => ?_
    exact List.inj_on_of_nodup_map different hy hx (beq_iff_eq.mp same)

/-- What all entries of a key have is found. -/
theorem lookup_of_unique [BEq α] [LawfulBEq α] {l : List (α × β)} {key : α} {v : β}
    (h : (key, v) ∈ l) (unique : ∀ p ∈ l, p.1 = key → p.2 = v) : l.lookup key = some v := by
  induction l with
  | nil => cases h
  | cons p rest ih =>
      rw [List.forall_mem_cons] at unique
      obtain ⟨k, w⟩ := p
      rw [List.lookup_cons]
      by_cases hk : k = key
      · rw [beq_iff_eq.mpr hk.symm]
        exact congrArg some (unique.1 hk)
      · rw [beq_eq_false_iff_ne.mpr (Ne.symm hk)]
        refine ih ((List.mem_cons.mp h).resolve_left fun same => ?_) unique.2
        exact hk (congrArg Prod.fst same).symm

/-- What a key of a list of different keys is bound to. -/
theorem lookup_of_mem [BEq α] [LawfulBEq α] {l : List (α × β)} (different : (l.map Prod.fst).Nodup)
    {key : α} {v : β} (h : (key, v) ∈ l) : l.lookup key = some v := by
  refine lookup_of_unique h fun p hp same => ?_
  exact congrArg Prod.snd (List.inj_on_of_nodup_map different hp h same)

end ReceiptPrinter
