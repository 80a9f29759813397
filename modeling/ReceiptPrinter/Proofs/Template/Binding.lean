import ReceiptPrinter.Proofs.Template.Beginnings

/-! # Binding — what a new key changes

    A key may have dots and a path may have a beginning that is bound, so a binding
    changes more than what its own key stands for.  It takes a path in (`Captures`)
    if some beginning of the path is the key, and neither the path nor any longer
    beginning of it is bound: the segments behind that beginning then name members
    of the new value.  At most one beginning can be the key, since the others have
    another number of dots.

    Paths that are neither the key nor taken in stand for what they did: their
    longest bound beginning is still the same. -/

namespace ReceiptPrinter.Context

/-- A beginning of a path is a key, and nothing longer is bound.  The rest of the
    path is what stands behind the dot. -/
structure Captures {o : Type} (c : Context o) (key path front rest : String) : Prop where
  path_eq : path = front ++ "." ++ rest
  same : Text.lowercase front = Text.lowercase key
  unbound : c.bound? path = none
  longest : ∀ longer more, path = longer ++ "." ++ more → front.length < longer.length →
    c.bound? longer = none

variable {o : Type} {c : Context o} {key path front rest : String} {v : ValueOf o}

/-- A key stands for the latest value that it was bound to. -/
theorem bound?_bind (c : Context o) (key : String) (v : ValueOf o) (path : String) :
    (c.bind key v).bound? path
      = if Text.lowercase path = Text.lowercase key then some v else c.bound? path := by
  rw [bound?, bind, List.lookup_cons]
  split
  next h => rw [if_pos (beq_iff_eq.mp h)]
  next h => rw [if_neg (beq_eq_false_iff_ne.mp h), bound?]

theorem bound?_bind_of_ne (h : Text.lowercase path ≠ Text.lowercase key) :
    (c.bind key v).bound? path = c.bound? path := by
  rw [bound?_bind, if_neg h]

/-- Two beginnings of a path with the same lower case are the same one. -/
theorem eq_of_lowercase_beginning {j k : Nat} (hj : 0 < j) (hk : 0 < k)
    (hjle : j ≤ (segments path).length) (hkle : k ≤ (segments path).length)
    (same : Text.lowercase (beginning path j) = Text.lowercase (beginning path k)) : j = k := by
  have dots := congrArg (fun s => s.toList.count '.') same
  simp only [Text.count_dot_lowercase, count_dot_beginning path hjle,
    count_dot_beginning path hkle] at dots
  omega

/-- Where a path is taken in, the names behind the key lead to its value. -/
theorem get?_of_captures [Members o] (h : c.Captures key path front rest) :
    (c.bind key v).get? path = resolve? v (names rest) := by
  obtain ⟨k, hk, hlt, hfront, hrest⟩ := exists_beginning h.path_eq
  have same : Text.lowercase (beginning path k) = Text.lowercase key := by
    rw [hfront, h.same]
  rw [← hrest]
  refine get?_of_longest hk (Nat.le_of_lt hlt) ?_ fun j hj hle => ?_
  · rw [bound?_bind, if_pos same]
  · rw [bound?_bind_of_ne]
    · rcases Nat.lt_or_eq_of_le hle with hlt | rfl
      · refine h.longest _ _ (beginning_append_dot (by omega) hlt).symm ?_
        rw [← hfront]
        exact length_beginning_lt hk hj hle
      · rw [beginning_length, h.unbound]
    · intro other
      have := eq_of_lowercase_beginning (by omega) hk hle (by omega) (other.trans same.symm)
      omega

/-- A binding is hidden from a path where each beginning that is the key is shorter
    than one that was bound before. -/
theorem longestBound?_bind_of_hidden {limit : Nat}
    (hidden : ∀ j, 0 < j → j ≤ limit → Text.lowercase (beginning path j) = Text.lowercase key →
      ∃ k, j < k ∧ k ≤ limit ∧ c.bound? (beginning path k) ≠ none) :
    (c.bind key v).longestBound? (segments path) limit
      = c.longestBound? (segments path) limit := by
  induction limit with
  | zero => rfl
  | succ limit ih =>
      rw [longestBound?, longestBound?, ← beginning, bound?_bind_of_ne]
      · cases bound : c.bound? (beginning path (limit + 1)) with
        | some w => rfl
        | none =>
            refine ih fun j hj hle same => ?_
            obtain ⟨k, hjk, hk, hbound⟩ := hidden j hj (Nat.le_succ_of_le hle) same
            refine ⟨k, hjk, Nat.le_of_lt_succ (Nat.lt_of_le_of_ne hk ?_), hbound⟩
            rintro rfl
            exact hbound bound
      · intro same
        obtain ⟨k, hlt, hle, -⟩ := hidden _ (Nat.succ_pos _) (Nat.le_refl _) same
        omega

/-- Where a path is not taken in, the key is no beginning of it or is hidden. -/
theorem hidden_of_not_captures (other : Text.lowercase path ≠ Text.lowercase key)
    (h : ∀ front rest, ¬ c.Captures key path front rest) {j : Nat} (hj : 0 < j)
    (hle : j ≤ (segments path).length)
    (same : Text.lowercase (beginning path j) = Text.lowercase key) :
    ∃ k, j < k ∧ k ≤ (segments path).length ∧ c.bound? (beginning path k) ≠ none := by
  have hlt : j < (segments path).length := by
    refine Nat.lt_of_le_of_ne hle ?_
    rintro rfl
    rw [beginning_length] at same
    exact other same
  by_contra none
  push Not at none
  refine h _ _ ⟨(beginning_append_dot hj hlt).symm, same, ?_, fun longer more heq hlonger => ?_⟩
  · have whole := none _ hlt (Nat.le_refl _)
    rwa [beginning_length] at whole
  · obtain ⟨k, hk, hklt, rfl, -⟩ := exists_beginning heq
    refine none k ?_ (Nat.le_of_lt hklt)
    by_contra hkj
    rcases Nat.lt_or_eq_of_le (Nat.le_of_not_lt hkj) with hkj | rfl
    · have := length_beginning_lt hk hkj hle
      omega
    · omega

/-- Where a path is not taken in and is not the key, it stands for what it did. -/
theorem get?_of_not_captures [Members o] (other : Text.lowercase path ≠ Text.lowercase key)
    (h : ∀ front rest, ¬ c.Captures key path front rest) :
    (c.bind key v).get? path = c.get? path := by
  rw [get?_eq, get?_eq, longestBound?_bind_of_hidden]
  exact fun j hj hle same => hidden_of_not_captures other h hj hle same

/-- The key stands for the value, whatever else is bound. -/
theorem get?_of_key [Members o] (same : Text.lowercase path = Text.lowercase key) :
    (c.bind key v).get? path = some v := by
  have bound : (c.bind key v).bound? (beginning path (segments path).length) = some v := by
    rw [beginning_length, bound?_bind, if_pos same]
  rw [get?_of_longest (segments_length_pos path) (Nat.le_refl _) bound fun j hj hle => by omega,
    List.drop_length]
  rfl

/-- **THE EFFECT OF A BINDING ON EVERY PATH.**  The key itself stands for the value.
    A path that the key takes in stands for what the names behind the key lead to.
    Every other path stands for what it did.  The variable of a loop has the same
    effect in its scope. -/
theorem get?_add [Members o] (notBlank : Text.allBlank key = false) (c : Context o)
    (v : ValueOf o) :
    ∃ added inner : Context o,
      c.add key v = .ok added ∧ c.pushScope.setLoopVariable key v = .ok inner
      ∧ ∀ path : String,
          (Text.lowercase path = Text.lowercase key → added.get? path = some v)
          ∧ (Text.lowercase path ≠ Text.lowercase key →
              (∀ front rest, c.Captures key path front rest →
                added.get? path = resolve? v (names rest))
              ∧ ((∀ front rest, ¬ c.Captures key path front rest) →
                  added.get? path = c.get? path))
          ∧ inner.get? path = added.get? path := by
  have plain : ∀ x : Context o, x.add key v = .ok (x.bind key v) := by
    intro x
    rw [add, notBlank]
    rfl
  have bindings : (c.pushScope.bind key v).bindings = (c.bind key v).bindings := rfl
  refine ⟨c.bind key v, c.pushScope.bind key v, plain c, plain c.pushScope, fun path => ?_⟩
  refine ⟨get?_of_key, fun other => ⟨fun front rest captures => ?_, fun h => ?_⟩, ?_⟩
  · exact get?_of_captures captures
  · exact get?_of_not_captures other h
  · exact get?_congr bindings path

/-- A context where an item is bound, and a key below it. -/
def outerItem : Context :=
  ⟨[("item.note", .text "outer"), ("item", .record ⟨[("Price", .int 1), ("Note", .null)]⟩)], []⟩

/-- The item of a loop shadows the outer one, but not the key below it. -/
theorem get?_innerItem :
    Text.allBlank "Item" = false
      ∧ ∃ inner : Context,
          outerItem.pushScope.setLoopVariable "Item" (.record ⟨[("Price", .int 2)]⟩) = .ok inner
          ∧ inner.get? "ITEM" = some (.record ⟨[("Price", .int 2)]⟩)
          ∧ inner.get? "item.PRICE" = some (.int 2)
          ∧ inner.get? "Item.Note" = some (.text "outer") := by
  have notBlank : Text.allBlank "Item" = false := by decide +kernel
  obtain ⟨added, inner, -, bound, effect⟩ :=
    get?_add notBlank outerItem (.record ⟨[("Price", .int 2)]⟩)
  refine ⟨notBlank, inner, bound, ?_, ?_, ?_⟩
  · obtain ⟨key, -, same⟩ := effect "ITEM"
    rw [same]
    exact key (by decide +kernel)
  · obtain ⟨-, other, same⟩ := effect "item.PRICE"
    have captures : outerItem.Captures "Item" "item.PRICE" "item" "PRICE" := by
      refine ⟨by decide +kernel, by decide +kernel, by rfl, fun longer more heq hlt => ?_⟩
      obtain ⟨k, hk, hle, rfl, -⟩ := exists_beginning heq
      have hsegments : (segments "item.PRICE").length = 2 := by decide +kernel
      obtain rfl : k = 1 := by omega
      exact absurd hlt (by decide +kernel)
    rw [same, (other (by decide +kernel)).1 _ _ captures]
    rfl
  · obtain ⟨-, other, same⟩ := effect "Item.Note"
    have bound : outerItem.bound? "Item.Note" = some (.text "outer") := by rfl
    rw [same, (other (by decide +kernel)).2]
    · rfl
    · intro front rest captures
      have := captures.unbound
      rw [bound] at this
      cases this

end ReceiptPrinter.Context
