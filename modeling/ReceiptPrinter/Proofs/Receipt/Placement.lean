import ReceiptPrinter.Proofs.Receipt.Rendering

/-! # Placement — where the elements of a tree are in its job

    The steps of a receipt do not show which element each of them comes from: a
    loop repeats its content, a condition drops it, and elements of other names
    leave no trace.  `Walk.Reaches` finds the nodes of a tree in its walk, each
    as often as it is walked and under the encoding and the context that it is
    walked under then, with the steps in front of it and behind it.

    A loop that does not fail is its content item by item (`Walk.run_loop`), and
    a condition is its content or nothing (`Walk.run_conditional`).  So in a
    receipt that compiles the steps of each node that is reached are really
    where `Reaches` says that they are (`Walk.Reaches.run`). -/

namespace ReceiptPrinter

open Markup (Node directText)

namespace Walk

variable {o : Type} {content : Walk o}

/-! ## Conditions and loops -/

/-- The items of a loop that does not fail, one after the other. -/
theorem run_forEach {name : String} {items : List (ValueOf o)} {x : Context o}
    (hk : content.Keeps) (sent : Step.Faultless ((forEach name content items).run (some x)).1) :
    ((forEach name content items).run (some x)).1
      = items.flatMap fun item => (content.run (some (x.pushScope.bind name item))).1 := by
  induction items with
  | nil => rfl
  | cons item rest ih =>
      rw [forEach, run_followedBy (withVariable_keeps name item content hk), run_withVariable]
        at sent ⊢
      rw [Step.faultless_append] at sent
      split at sent
      · exact absurd sent.1 (Step.not_faultless_fault .blankKey [])
      next hname => rw [if_neg hname, List.flatMap_cons, ih sent.2]

variable [Members o]

/-- The walk of a loop that does not fail is its content once per item. -/
theorem run_loop {s : Settings} {t : Tag} {c : Option (Context o)} (hk : content.Keeps)
    (sent : Step.Faultless ((loop s t content).run c).1) :
    ((loop s t content).run c).1
      = (t.items c).flatMap fun item => (content.run (t.inner c item)).1 := by
  rw [loop] at sent ⊢
  cases hname : t.required "var" with
  | error fault =>
      rw [hname] at sent
      exact absurd sent (Step.not_faultless_fault fault [])
  | ok name =>
      obtain rfl := Tag.value_of_required hname
      rw [hname] at sent
      dsimp only at sent ⊢
      cases hsource : t.required "in" with
      | error fault =>
          rw [hsource] at sent
          exact absurd sent (Step.not_faultless_fault fault [])
      | ok source =>
          obtain rfl := Tag.value_of_required hsource
          rw [hsource] at sent
          cases c with
          | none => exact absurd sent (Step.not_faultless_fault (.contextRequired t.name) [])
          | some x =>
              have hitems := run_overItems sent
              exact hitems.trans (run_forEach hk (hitems ▸ sent))

/-- A condition that does not fail takes the content or nothing. -/
theorem run_conditional {t : Tag} {c : Option (Context o)}
    (sent : Step.Faultless ((conditional t content).run c).1) :
    ((conditional t content).run c).1 = if t.holds c then (content.run c).1 else [] := by
  rw [conditional] at sent ⊢
  cases hcond : t.required "condition" with
  | error fault =>
      rw [hcond] at sent
      exact absurd sent (Step.not_faultless_fault fault [])
  | ok condition =>
      obtain rfl := Tag.value_of_required hcond
      rw [hcond] at sent
      cases c with
      | none => exact absurd sent (Step.not_faultless_fault (.contextRequired t.name) [])
      | some x =>
          rw [t.holds_some]
          dsimp only [choose]
          split <;> rfl

/-! ## Reaching a node -/

/-- The content of an element of a form is walked under the context `d`, behind
    some steps of the element and in front of others. -/
inductive Enters (t : Tag) (content : Walk o) (c : Option (Context o)) :
    Tag.Form → List Step → Option (Context o) → List Step → Prop
  | chosen (holds : t.holds c = true) : Enters t content c .chosen [] c []
  | repeated {xs ys : List (ValueOf o)} {item : ValueOf o} (items : t.items c = xs ++ item :: ys) :
      Enters t content c .repeated (xs.flatMap fun x => (content.run (t.inner c x)).1)
        (t.inner c item) (ys.flatMap fun y => (content.run (t.inner c y)).1)
  | styled (on off : Style) :
      Enters t content c (.styled on off) [.command (.style on)] c [.command (.style off)]
  | transparent : Enters t content c .transparent [] c []

/-- The steps of an element have those of its content in their place. -/
theorem Enters.run {s : Settings} {e : Encoding} {t : Tag} {text : String}
    {c d : Option (Context o)} {form : Tag.Form} {before after : List Step}
    (h : Enters t content c form before d after) (hk : content.Keeps)
    (sent : Step.Faultless ((ofForm s e t text content form).run c).1) :
    ((ofForm s e t text content form).run c).1 = before ++ (content.run d).1 ++ after := by
  cases h with
  | chosen holds =>
      rw [ofForm] at sent ⊢
      rw [run_conditional sent, if_pos holds, List.nil_append, List.append_nil]
  | repeated items =>
      rw [ofForm] at sent ⊢
      rw [run_loop hk sent, items, List.flatMap_append, List.flatMap_cons, List.append_assoc]
  | styled on off => exact run_between on off hk c
  | transparent => exact (List.append_nil _).symm

/-- In the walk of a node under an encoding and a context, some node in it is walked
    under an encoding and a context, behind some steps and in front of others. -/
inductive Reaches (s : Settings) :
    Encoding → Node → Option (Context o) → List Step →
      Encoding → Node → Option (Context o) → List Step → Prop
  | here (e : Encoding) (n : Node) (c : Option (Context o)) : Reaches s e n c [] e n c []
  | inside {e around inner : Encoding} {name : String} {attributes : Markup.Attributes}
      {xs ys : List Node} {n m : Node} {c d f : Option (Context o)}
      {before after left right : List Step}
      (named : encodingOf e attributes = .ok around)
      (enters : Enters ⟨name, attributes⟩ (nodes s around (xs ++ n :: ys)) c
        (Tag.form ⟨name, attributes⟩ s.locate) before d after)
      (reaches : Reaches s around n d left inner m f right) :
      Reaches s e (.element name attributes (xs ++ n :: ys)) c
        (before ++ ((nodes s around xs).run d).1 ++ left) inner m f
        (right ++ ((nodes s around ys).run d).1 ++ after)

/-- The steps of a node have those of each node that is reached in their place. -/
theorem Reaches.run {s : Settings} {e around : Encoding} {n m : Node} {c d : Option (Context o)}
    {before after : List Step} (h : Reaches s e n c before around m d after)
    (sent : Step.Faultless ((node s e n).run c).1) :
    ((node s e n).run c).1 = before ++ ((node s around m).run d).1 ++ after := by
  induction h with
  | here e n c => exact (List.append_nil _).symm
  | @inside e around inner name attributes xs ys n m c d f before after left right named enters _
      ih =>
      have hw : node (o := o) s e (.element name attributes (xs ++ n :: ys))
          = ofForm s around ⟨name, attributes⟩ (directText (xs ++ n :: ys))
              (nodes s around (xs ++ n :: ys)) (Tag.form ⟨name, attributes⟩ s.locate) := by
        rw [node, named]
        exact element_eq_ofForm _ _ _ _ _
      rw [hw] at sent ⊢
      -- First the content in the element, then the nodes beside the one that leads on.
      have hrun := enters.run (keeps_nodes s around _) sent
      rw [run_nodes_append, nodes, run_followedBy (keeps_node s around n)] at hrun
      rw [hrun] at sent ⊢
      simp only [Step.faultless_append] at sent
      rw [ih sent.1.2.2.1]
      simp only [List.append_assoc]

end Walk

end ReceiptPrinter
