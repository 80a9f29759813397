import ReceiptPrinter.Receipt.Step
import ReceiptPrinter.Template.Substitution

/-! # Walks — steps that depend on a context

    A walk yields steps under a context, or without one, and hands the context on to
    the walk after it.  Walks are put one after the other, or run once per item of a
    list in a scope of their own. -/

namespace ReceiptPrinter

variable {o : Type}

/-- A text with its tokens filled in from a context; without one it stays as it
    is. -/
def fill [Members o] (c : Option (Context o)) (s : String) : String :=
  match c with
  | some c => c.substitute s
  | none => s

/-- Steps under a context, and the context afterwards. -/
structure Walk (o : Type) where
  run : Option (Context o) → List Step × Option (Context o)

namespace Walk

/-- The walk without steps. -/
def nothing : Walk o := ⟨fun c => ([], c)⟩

/-- Steps that look at the context and leave it alone. -/
def steps (parts : Option (Context o) → List Step) : Walk o := ⟨fun c => (parts c, c)⟩

/-- A step that fails. -/
def fail (e : Error) : Walk o := steps fun _ => [.fault e]

/-- A walk after another. -/
def followedBy (a b : Walk o) : Walk o :=
  ⟨fun c =>
    let (before, c) := a.run c
    let (after, c) := b.run c
    (before ++ after, c)⟩

/-- The context with the scope opened last closed. -/
def closed (c : Context o) : Context o :=
  match c.popScope with
  | .ok outer => outer
  | .error _ => c

/-- A walk in a scope in which a variable is bound.  The scope is closed again even
    if the variable cannot be bound. -/
def withVariable (name : String) (value : ValueOf o) (body : Walk o) : Walk o :=
  ⟨fun
    | none => ([], none)
    | some c =>
      match c.pushScope.setLoopVariable name value with
      | .error e => ([.fault e], some (closed c.pushScope))
      | .ok inner =>
        let (parts, after) := body.run (some inner)
        (parts, after.map closed)⟩

/-- A walk once per item. -/
def forEach (name : String) (body : Walk o) : List (ValueOf o) → Walk o
  | [] => nothing
  | item :: rest => (withVariable name item body).followedBy (forEach name body rest)

/-- Closing the scope in which a variable was bound brings back the context
    before. -/
theorem closed_setLoopVariable {c inner : Context o} {name : String} {value : ValueOf o}
    (h : c.pushScope.setLoopVariable name value = .ok inner) : closed inner = c := by
  rw [closed, Context.popScope_setLoopVariable h]

/-- A walk whose body keeps every context keeps every context, the variable or
    not. -/
theorem withVariable_keeps (name : String) (value : ValueOf o) (body : Walk o)
    (h : ∀ c, (body.run c).2 = c) (c : Option (Context o)) :
    ((withVariable name value body).run c).2 = c := by
  cases c with
  | none => rfl
  | some c =>
      rw [withVariable]
      dsimp only
      split
      · rfl
      next inner bound =>
        show (body.run (some inner)).2.map closed = some c
        rw [h, Option.map_some, closed_setLoopVariable bound]

/-- A walk that is chosen by the context, which the tag of the given name cannot do
    without. -/
def choose (tag : String) (pick : Context o → Walk o) : Walk o :=
  ⟨fun
    | none => (fail (.contextRequired tag)).run none
    | some c => (pick c).run (some c)⟩

end Walk

end ReceiptPrinter
