import Mathlib.Data.List.Infix
import ReceiptPrinter.Template.Context

/-! # Scopes — what is opened is closed again

    The operations on a context are put in a row, and each of them may fail: a blank
    key is not bound, a range stops at its first blank key and keeps what was bound
    before it, a scope that is not there cannot be closed.  A failed operation does
    not end the row.

    What matters of an operation is what it does to the open scopes: opening puts one
    on top, closing takes the topmost away, and everything else leaves them alone,
    failed or not (`Context.scopes_perform`).  A row that never closes more scopes
    than it opened does not touch those below (`Context.exists_scopes_performAll`).
    So what was saved when a scope was opened is still there when it is closed
    (`Context.perform_popScope_of_balanced`). -/

namespace ReceiptPrinter

/-- What can be done to a context. -/
inductive Operation (o : Type) where
  | add (key : String) (value : ValueOf o)
  | addRange (entries : List (String × ValueOf o))
  | addObject (x : o) (under : Option String)
  | setLoopVariable (name : String) (value : ValueOf o)
  | pushScope
  | popScope

namespace Operation

variable {o : Type}

def isPush : Operation o → Bool
  | pushScope => true
  | _ => false

def isPop : Operation o → Bool
  | popScope => true
  | _ => false

/-- How many scopes operations open. -/
def pushes (ops : List (Operation o)) : Nat :=
  ops.countP isPush

/-- How many scopes operations close. -/
def pops (ops : List (Operation o)) : Nat :=
  ops.countP isPop

theorem pushes_append (front back : List (Operation o)) :
    pushes (front ++ back) = pushes front + pushes back :=
  List.countP_append

theorem pops_append (front back : List (Operation o)) :
    pops (front ++ back) = pops front + pops back :=
  List.countP_append

/-- Operations that close as many scopes as they open, and at no point more. -/
structure Balanced (ops : List (Operation o)) : Prop where
  nested : ∀ front, front <+: ops → pops front ≤ pushes front
  closed : pops ops = pushes ops

end Operation

namespace Context

open Operation (pushes pops pushes_append pops_append Balanced)

variable {o : Type} {c : Context o}

/-! ## One operation -/

theorem scopes_add {key : String} {value : ValueOf o} {added : Context o}
    (h : c.add key value = .ok added) : added.scopes = c.scopes := by
  rw [add] at h
  split at h
  · cases h
  · cases h
    rfl

/-- A range leaves the scopes alone, also where it stops in the middle. -/
theorem scopes_addRange (c : Context o) (entries : List (String × ValueOf o)) :
    (c.addRange entries).1.scopes = c.scopes := by
  induction entries generalizing c with
  | nil => rfl
  | cons entry rest ih =>
      rw [addRange]
      split
      next added h => rw [ih added, scopes_add h]
      next => rfl

theorem scopes_setLoopVariable {name : String} {value : ValueOf o} {bound : Context o}
    (h : c.setLoopVariable name value = .ok bound) : bound.scopes = c.scopes := by
  rw [setLoopVariable] at h
  split at h
  · cases h
  · exact scopes_add h

/-- What is left of a context by an operation that gives a new one or fails. -/
def kept (c : Context o) : Except Error (Context o) → Context o × Option Error
  | .ok after => (after, none)
  | .error e => (c, some e)

theorem scopes_kept {outcome : Except Error (Context o)}
    (h : ∀ after, outcome = .ok after → after.scopes = c.scopes) :
    (c.kept outcome).1.scopes = c.scopes := by
  cases outcome with
  | error e => rfl
  | ok after => exact h after rfl

variable [Members o]

theorem scopes_addObject (c : Context o) (x : o) (under : Option String) :
    (c.addObject x under).scopes = c.scopes :=
  List.foldlRecOn (motive := fun d : Context o => d.scopes = c.scopes) (Members.names x) _ rfl
    fun _ h _ _ => h

/-- The context after an operation, and the error if it failed. -/
def perform (c : Context o) : Operation o → Context o × Option Error
  | .add key value => c.kept (c.add key value)
  | .addRange entries => c.addRange entries
  | .addObject x under => (c.addObject x under, none)
  | .setLoopVariable name value => c.kept (c.setLoopVariable name value)
  | .pushScope => (c.pushScope, none)
  | .popScope => c.kept c.popScope

/-- **WHAT ONE OPERATION DOES TO THE OPEN SCOPES**, failed or not: it opens one and
    saves the bindings in it, closes the topmost if there is one, or leaves them all
    alone. -/
theorem scopes_perform (c : Context o) (op : Operation o) :
    (pushes [op] = 1 ∧ pops [op] = 0 ∧ (c.perform op).1.scopes = c.bindings :: c.scopes)
      ∨ (pushes [op] = 0 ∧ pops [op] = 1 ∧ (c.perform op).1.scopes = c.scopes.tail)
      ∨ (pushes [op] = 0 ∧ pops [op] = 0 ∧ (c.perform op).1.scopes = c.scopes) := by
  cases op with
  | add key value => exact .inr (.inr ⟨rfl, rfl, scopes_kept fun _ h => scopes_add h⟩)
  | addRange entries => exact .inr (.inr ⟨rfl, rfl, c.scopes_addRange entries⟩)
  | addObject x under => exact .inr (.inr ⟨rfl, rfl, c.scopes_addObject x under⟩)
  | setLoopVariable name value =>
      exact .inr (.inr ⟨rfl, rfl, scopes_kept fun _ h => scopes_setLoopVariable h⟩)
  | pushScope => exact .inl ⟨rfl, rfl, rfl⟩
  | popScope =>
      refine .inr (.inl ⟨rfl, rfl, ?_⟩)
      obtain ⟨bindings, scopes⟩ := c
      cases scopes <;> rfl

/-! ## Operations in a row -/

/-- The context after operations one after the other, whether they fail or not. -/
def performAll (c : Context o) (ops : List (Operation o)) : Context o :=
  ops.foldl (fun c op => (c.perform op).1) c

variable {ops : List (Operation o)} {above base : List (Bindings o)}

/-- Operations that close no more scopes than are open above a certain one leave that
    one and those below it alone. -/
theorem exists_scopes_performAll (open_eq : c.scopes = above ++ base)
    (nested : ∀ front, front <+: ops → pops front ≤ above.length + pushes front) :
    ∃ left, (c.performAll ops).scopes = left ++ base
      ∧ left.length + pops ops = above.length + pushes ops := by
  -- By the last operation, so that those before it are a beginning of the row.
  induction ops using List.reverseRecOn with
  | nil => exact ⟨above, open_eq, rfl⟩
  | append_singleton front op ih =>
      obtain ⟨left, hleft, hlength⟩ := ih fun f hf => nested f (hf.trans (List.prefix_append _ _))
      have whole := nested _ List.prefix_rfl
      have last : c.performAll (front ++ [op]) = ((c.performAll front).perform op).1 := by
        rw [performAll, List.foldl_append]
        rfl
      rw [last]
      simp only [pops_append, pushes_append] at whole ⊢
      rcases (c.performAll front).scopes_perform op with
        ⟨hpush, hpop, h⟩ | ⟨hpush, hpop, h⟩ | ⟨hpush, hpop, h⟩
      · refine ⟨(c.performAll front).bindings :: left, ?_, ?_⟩
        · rw [h, hleft]
          rfl
        · rw [List.length_cons]
          omega
      · cases left with
        | nil =>
            rw [List.length_nil] at hlength
            omega
        | cons top others =>
            refine ⟨others, ?_, ?_⟩
            · rw [h, hleft]
              rfl
            · rw [List.length_cons] at hlength
              omega
      · exact ⟨left, h.trans hleft, by omega⟩

/-- **SCOPES ARE STRICTLY NESTED.**  A scope is opened, any operations follow that are
    balanced among themselves, failed or not, and the scope is closed.  Then closing
    it does not fail, and the bindings and all scopes are what they were before it was
    opened; in between what it saved was never touched.  Where no scope is open, one
    cannot be closed and the variable of a loop cannot be bound, and trying changes
    nothing. -/
theorem perform_popScope_of_balanced (c : Context o) (balanced : Balanced ops) :
    (c.pushScope.performAll ops).perform .popScope = (c, none)
      ∧ (∀ front, front <+: ops →
          c.bindings :: c.scopes <:+ (c.pushScope.performAll front).scopes)
      ∧ ∀ x : Context o, x.scopes = [] →
          x.perform .popScope = (x, some .noScope)
          ∧ ∀ name value, x.perform (.setLoopVariable name value)
            = (x, some (.loopOutsideScope name)) := by
  have opened : c.pushScope.scopes = [] ++ (c.bindings :: c.scopes) := rfl
  have nested : ∀ front, front <+: ops →
      pops front ≤ ([] : List (Bindings o)).length + pushes front := by
    intro front hf
    rw [List.length_nil, Nat.zero_add]
    exact balanced.nested front hf
  refine ⟨?_, fun front hf => ?_, fun x closed => ⟨?_, fun name value => ?_⟩⟩
  · obtain ⟨left, hleft, hlength⟩ := exists_scopes_performAll opened nested
    rw [balanced.closed, List.length_nil, Nat.add_right_cancel_iff] at hlength
    rw [List.eq_nil_of_length_eq_zero hlength] at hleft
    rw [perform, popScope, hleft]
    rfl
  · obtain ⟨left, hleft, -⟩ := exists_scopes_performAll opened fun f hle => nested f (hle.trans hf)
    exact ⟨left, hleft.symm⟩
  · rw [perform, popScope, closed]
    rfl
  · rw [perform, setLoopVariable, closed]
    rfl

/-- Operations of which three fail: a range in the middle, a blank variable, and
    another one in an inner scope. -/
def failingOperations : List (Operation Object) := [
  .addRange [("A", .int 1), (" ", .int 2), ("B", .int 3)],
  .setLoopVariable "" .null,
  .pushScope,
  .addObject ⟨⟨[("Price", .int 4)]⟩⟩ (some "Item"),
  .add "	" .null,
  .popScope,
  .setLoopVariable "i" (.int 5)]

/-- What the first of them leaves behind is gone with the scope. -/
theorem perform_popScope_failingOperations :
    Balanced failingOperations
      ∧ (((empty : Context).bind "a" .null).pushScope.perform
          (.addRange [("A", .int 1), (" ", .int 2), ("B", .int 3)])).2 = some .blankKey
      ∧ (((empty : Context).bind "a" .null).pushScope.performAll failingOperations).perform
          .popScope = (empty.bind "a" .null, none) := by
  have balanced : Balanced failingOperations := by
    refine ⟨fun front hf => ?_, rfl⟩
    have all : ∀ front ∈ failingOperations.inits, pops front ≤ pushes front := by decide
    exact all front ((List.mem_inits _ _).mpr hf)
  exact ⟨balanced, rfl, (perform_popScope_of_balanced (empty.bind "a" .null) balanced).1⟩

end Context

end ReceiptPrinter
