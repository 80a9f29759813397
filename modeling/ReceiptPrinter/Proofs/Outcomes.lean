/-! # Outcomes — computations that succeed or fail

    What is known of the parts of a computation once the outcome of the whole is
    known: if it succeeds then every part does, and its error is that of a part. -/

namespace ReceiptPrinter

theorem bind_eq_ok {ε α β : Type} {x : Except ε α} {f : α → Except ε β} {y : β}
    (h : x >>= f = .ok y) : ∃ a, x = .ok a ∧ f a = .ok y := by
  cases x with
  | error e => cases h
  | ok a => exact ⟨a, rfl, h⟩

theorem bind_eq_error {ε α β : Type} {x : Except ε α} {f : α → Except ε β} {e : ε}
    (h : x >>= f = .error e) : x = .error e ∨ ∃ a, x = .ok a ∧ f a = .error e := by
  cases x with
  | error e' => exact .inl (congrArg _ (Except.error.inj h))
  | ok a => exact .inr ⟨a, rfl, h⟩

theorem map_eq_ok {ε α β : Type} {x : Except ε α} {f : α → β} {y : β}
    (h : x.map f = .ok y) : ∃ a, x = .ok a ∧ y = f a := by
  cases x with
  | error e => cases h
  | ok a => exact ⟨a, rfl, (Except.ok.inj h).symm⟩

theorem map_eq_error {ε α β : Type} {x : Except ε α} {f : α → β} {e : ε}
    (h : x.map f = .error e) : x = .error e := by
  cases x with
  | error e' => exact congrArg _ (Except.error.inj h)
  | ok a => cases h

theorem ok_of_toOption {ε α : Type} {x : Except ε α} {y : α} (h : x.toOption = some y) :
    x = .ok y := by
  cases x with
  | error e => cases h
  | ok a => exact congrArg _ (Option.some.inj h)

/-- A list of computations succeeds when its first one does and then the others do. -/
theorem mapM_cons_eq_ok {ε α β : Type} {f : α → Except ε β} {x : α} {xs : List α} {ys : List β}
    (h : (x :: xs).mapM f = .ok ys) :
    ∃ z zs, f x = .ok z ∧ xs.mapM f = .ok zs ∧ ys = z :: zs := by
  rw [List.mapM_cons] at h
  cases hx : f x with
  | error e =>
      rw [hx] at h
      cases h
  | ok z =>
      cases hxs : xs.mapM f with
      | error e =>
          rw [hx, hxs] at h
          cases h
      | ok zs =>
          rw [hx, hxs] at h
          exact ⟨z, zs, rfl, rfl, (Except.ok.inj h).symm⟩

/-- The error of a list of computations is that of one of them. -/
theorem error_of_mapM {ε α β : Type} {f : α → Except ε β} {xs : List α} {e : ε}
    (h : xs.mapM f = .error e) : ∃ x ∈ xs, f x = .error e := by
  induction xs with
  | nil => cases h
  | cons x rest ih =>
      rw [List.mapM_cons] at h
      cases hx : f x with
      | error e' =>
          rw [hx] at h
          exact ⟨x, List.mem_cons_self, by rw [hx, Except.error.inj h]⟩
      | ok y =>
          cases hr : rest.mapM f with
          | error e' =>
              rw [hx, hr] at h
              obtain ⟨x', hm, he⟩ := ih (by rw [hr, Except.error.inj h])
              exact ⟨x', List.mem_cons_of_mem x hm, he⟩
          | ok ys =>
              rw [hx, hr] at h
              cases h

end ReceiptPrinter
