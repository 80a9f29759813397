import ReceiptPrinter.Proofs.Template.Paths

/-! # Beginnings — where a path is looked up

    A path is looked up by its beginnings of whole segments, the longest first.  A
    beginning is what stands in front of a dot, or the whole path.  So a path has
    one beginning for each number of segments, and the longer one has more dots
    (`count_dot_beginning`).  As lower case keeps dots, at most one beginning has
    the lower case of a given key.

    The value of a path is found at the longest beginning that is bound
    (`get?_of_longest`), and at the only one if nothing but that one can be
    (`get?_of_only`). -/

namespace ReceiptPrinter

/-! ## Joining and splitting -/

namespace Text

variable {sep : Char}

theorem not_mem_of_mem_splitAtEach {cs piece : List Char} (h : piece ∈ splitAtEach sep cs) :
    sep ∉ piece := by
  induction cs generalizing piece with
  | nil =>
      obtain rfl := List.mem_singleton.mp h
      exact List.not_mem_nil
  | cons c rest ih =>
      rw [splitAtEach] at h
      by_cases hc : c = sep
      · rw [if_pos hc] at h
        rcases List.mem_cons.mp h with rfl | h
        · exact List.not_mem_nil
        · exact ih h
      · rw [if_neg hc] at h
        cases hrest : splitAtEach sep rest with
        | nil => exact absurd hrest (splitAtEach_ne_nil sep rest)
        | cons first more =>
            rw [hrest] at h ih
            rcases List.mem_cons.mp h with rfl | h
            · rw [List.mem_cons, not_or]
              exact ⟨Ne.symm hc, ih List.mem_cons_self⟩
            · exact ih (List.mem_cons_of_mem _ h)

theorem splitAtEach_append_cons (sep : Char) (xs ys : List Char) :
    splitAtEach sep (xs ++ sep :: ys) = splitAtEach sep xs ++ splitAtEach sep ys := by
  rw [splitAtEach_eq_splitOn, splitAtEach_eq_splitOn, splitAtEach_eq_splitOn]
  exact List.splitOn_append_cons_self _ _

theorem joinWith_append (sep : Char) {xs ys : List (List Char)} (hx : xs ≠ []) (hy : ys ≠ []) :
    joinWith sep (xs ++ ys) = joinWith sep xs ++ sep :: joinWith sep ys := by
  induction xs with
  | nil => exact absurd rfl hx
  | cons x more ih =>
      cases more with
      | nil => exact joinWith.eq_3 sep x ys hy
      | cons next others =>
          have longer : next :: others ++ ys ≠ [] := List.cons_ne_nil _ _
          rw [List.cons_append, joinWith.eq_3 _ _ _ longer, ih (List.cons_ne_nil _ _),
            joinWith.eq_3 _ _ _ (List.cons_ne_nil _ _), List.append_assoc]
          rfl

/-- There is one separator less than there are pieces. -/
theorem count_joinWith {pieces : List (List Char)} (h : ∀ piece ∈ pieces, sep ∉ piece) :
    (joinWith sep pieces).count sep = pieces.length - 1 := by
  induction pieces with
  | nil => rfl
  | cons piece more ih =>
      rw [List.forall_mem_cons] at h
      cases more with
      | nil => exact List.count_eq_zero.mpr h.1
      | cons next others =>
          rw [joinWith.eq_3 _ _ _ (List.cons_ne_nil _ _), List.count_append, List.count_cons_self,
            ih h.2, List.count_eq_zero.mpr h.1]
          simp only [List.length_cons]
          omega

end Text

namespace Context

/-! ## Beginnings of a path -/

/-- The segments of a path. -/
def segments (path : String) : List (List Char) :=
  Text.splitAtEach '.' path.toList

/-- The names that the segments of a path are. -/
def names (path : String) : List String :=
  (segments path).map String.ofList

/-- What a path begins with, up to a number of segments. -/
def beginning (path : String) (k : Nat) : String :=
  pathOf ((segments path).take k)

variable {path front rest : String} {j k : Nat}

theorem segments_length_pos (path : String) : 0 < (segments path).length :=
  List.length_pos_of_ne_nil (Text.splitAtEach_ne_nil '.' path.toList)

theorem pathOf_segments (path : String) : pathOf (segments path) = path := by
  rw [pathOf, segments, Text.joinWith_splitAtEach, String.ofList_toList]

/-- The whole path is its longest beginning. -/
theorem beginning_length (path : String) : beginning path (segments path).length = path := by
  rw [beginning, List.take_length, pathOf_segments]

theorem segments_append (front rest : String) :
    segments (front ++ "." ++ rest) = segments front ++ segments rest := by
  have chars : (front ++ "." ++ rest).toList = front.toList ++ '.' :: rest.toList := by
    rw [String.toList_append, String.toList_append, List.append_assoc]
    rfl
  rw [segments, chars, Text.splitAtEach_append_cons]
  rfl

/-- What stands in front of a dot is a beginning, and the other segments are those of
    what stands behind it. -/
theorem exists_beginning (h : path = front ++ "." ++ rest) :
    ∃ k, 0 < k ∧ k < (segments path).length ∧ beginning path k = front
      ∧ ((segments path).drop k).map String.ofList = names rest := by
  subst h
  refine ⟨(segments front).length, segments_length_pos front, ?_, ?_, ?_⟩
  · have := segments_length_pos rest
    rw [segments_append, List.length_append]
    omega
  · rw [beginning, segments_append, List.take_left, pathOf_segments]
  · rw [segments_append, List.drop_left, names]

/-- A dot stands behind each beginning but the whole path. -/
theorem beginning_append_dot (hk : 0 < k) (hlt : k < (segments path).length) :
    beginning path k ++ "." ++ pathOf ((segments path).drop k) = path := by
  have front : (segments path).take k ≠ [] :=
    List.ne_nil_of_length_pos (by rw [List.length_take]; omega)
  have back : (segments path).drop k ≠ [] :=
    List.ne_nil_of_length_pos (by rw [List.length_drop]; omega)
  have joined := Text.joinWith_append '.' front back
  rw [List.take_append_drop] at joined
  have whole := Text.joinWith_splitAtEach '.' path.toList
  rw [← segments, joined] at whole
  rw [← String.toList_inj, String.toList_append, String.toList_append, beginning, pathOf, pathOf]
  simp only [String.toList_ofList]
  rw [List.append_assoc]
  exact whole

/-- A beginning has a dot less than it has segments. -/
theorem count_dot_beginning (path : String) (hk : k ≤ (segments path).length) :
    (beginning path k).toList.count '.' = k - 1 := by
  rw [beginning, pathOf, String.toList_ofList, Text.count_joinWith, List.length_take,
    Nat.min_eq_left hk]
  exact fun piece h => Text.not_mem_of_mem_splitAtEach (List.mem_of_mem_take h)

/-- The longer of two beginnings is the one of more segments. -/
theorem length_beginning_lt (hj : 0 < j) (hlt : j < k) (hk : k ≤ (segments path).length) :
    (beginning path j).length < (beginning path k).length := by
  have front : (segments path).take j ≠ [] :=
    List.ne_nil_of_length_pos (by rw [List.length_take]; omega)
  have back : ((segments path).take k).drop j ≠ [] :=
    List.ne_nil_of_length_pos (by rw [List.length_drop, List.length_take]; omega)
  have joined := Text.joinWith_append '.' front back
  have whole : (segments path).take j ++ ((segments path).take k).drop j
      = (segments path).take k := by
    rw [← Nat.min_eq_left (Nat.le_of_lt hlt), ← List.take_take, Nat.min_eq_left (Nat.le_of_lt hlt)]
    exact List.take_append_drop _ _
  rw [whole] at joined
  rw [beginning, beginning, pathOf, pathOf, String.length_ofList, String.length_ofList, joined,
    List.length_append, List.length_cons]
  omega

/-! ## Looking up the beginnings -/

variable {o : Type} {c : Context o} {v : ValueOf o}

theorem get?_eq [Members o] (c : Context o) (path : String) :
    c.get? path
      = (c.longestBound? (segments path) (segments path).length).bind fun (v, names) =>
          resolve? v names := rfl

theorem longestBound?_congr {x : Context o} (same : c.bindings = x.bindings)
    (segments : List (List Char)) (limit : Nat) :
    c.longestBound? segments limit = x.longestBound? segments limit := by
  induction limit with
  | zero => rfl
  | succ limit ih => rw [longestBound?, longestBound?, bound?, bound?, same, ih]

/-- A lookup sees nothing of a context but its bindings. -/
theorem get?_congr [Members o] {x : Context o} (same : c.bindings = x.bindings) (path : String) :
    c.get? path = x.get? path := by
  simp only [get?, longestBound?_congr same]

/-- What is found is the longest beginning that is bound. -/
theorem longestBound?_eq_some {limit : Nat} (hk : 0 < k) (hle : k ≤ limit)
    (bound : c.bound? (beginning path k) = some v)
    (longer : ∀ j, k < j → j ≤ limit → c.bound? (beginning path j) = none) :
    c.longestBound? (segments path) limit
      = some (v, ((segments path).drop k).map String.ofList) := by
  induction limit with
  | zero => omega
  | succ limit ih =>
      rw [longestBound?, ← beginning]
      rcases Nat.lt_or_eq_of_le hle with hlt | rfl
      · rw [longer _ hlt (Nat.le_refl _)]
        exact ih (Nat.le_of_lt_succ hlt) fun j hj hl => longer j hj (Nat.le_succ_of_le hl)
      · rw [bound]

theorem longestBound?_eq_none {limit : Nat}
    (unbound : ∀ j, 0 < j → j ≤ limit → c.bound? (beginning path j) = none) :
    c.longestBound? (segments path) limit = none := by
  induction limit with
  | zero => rfl
  | succ limit ih =>
      rw [longestBound?, ← beginning, unbound _ (Nat.succ_pos _) (Nat.le_refl _)]
      exact ih fun j hj hl => unbound j hj (Nat.le_succ_of_le hl)

/-- The segments behind the longest beginning that is bound name members of its
    value. -/
theorem get?_of_longest [Members o] (hk : 0 < k) (hle : k ≤ (segments path).length)
    (bound : c.bound? (beginning path k) = some v)
    (longer : ∀ j, k < j → j ≤ (segments path).length → c.bound? (beginning path j) = none) :
    c.get? path = resolve? v (((segments path).drop k).map String.ofList) := by
  rw [get?_eq, longestBound?_eq_some hk hle bound longer]
  rfl

/-- A path stands for what its only bound beginning does. -/
theorem get?_of_only [Members o] (hk : 0 < k) (hle : k ≤ (segments path).length)
    (only : ∀ j, 0 < j → j ≤ (segments path).length → j ≠ k →
      c.bound? (beginning path j) = none) :
    c.get? path
      = (c.bound? (beginning path k)).bind fun v =>
          resolve? v (((segments path).drop k).map String.ofList) := by
  cases bound : c.bound? (beginning path k) with
  | some v =>
      exact get?_of_longest hk hle bound fun j hj hl => only j (by omega) hl (by omega)
  | none =>
      rw [get?_eq, longestBound?_eq_none]
      · rfl
      · intro j hj hl
        by_cases hjk : j = k
        · rw [hjk, bound]
        · exact only j hj hl hjk

end Context

end ReceiptPrinter
