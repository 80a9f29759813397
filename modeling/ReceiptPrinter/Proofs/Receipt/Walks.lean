import ReceiptPrinter.Proofs.Preview.Synchronization
import ReceiptPrinter.Proofs.Receipt.Elements

/-! # Walks — what every receipt's walk has in common

    A property of all receipts is proved by a case for each form of walk and an
    induction over the tree.  The first one is that a walk leaves the context as
    it was, on every way out (`Walk.keeps_node`); because of it the walks of
    neighbours do not see each other.

    The second half of the file turns the steps of a receipt into the events
    that its bytes mean, and says what is left of conditions and loops in a
    receipt that compiles. -/

namespace ReceiptPrinter

open Markup (Node Element Attributes directText)

namespace Walk

/-! ## Contexts are left alone -/

variable {o : Type}

/-- A walk that leaves every context as it was. -/
def Keeps (w : Walk o) : Prop :=
  ∀ c, (w.run c).2 = c

theorem keeps_steps (parts : Option (Context o) → List Step) : (steps parts).Keeps :=
  fun _ => rfl

theorem keeps_nothing : (nothing : Walk o).Keeps :=
  fun _ => rfl

theorem keeps_followedBy {a b : Walk o} (ha : a.Keeps) (hb : b.Keeps) : (a.followedBy b).Keeps := by
  intro c
  show (b.run (a.run c).2).2 = c
  rw [ha, hb]

theorem keeps_between (on off : Style) {content : Walk o} (h : content.Keeps) :
    (between on off content).Keeps :=
  keeps_followedBy (keeps_followedBy (keeps_steps _) h) (keeps_steps _)

theorem keeps_choose (tag : String) {pick : Context o → Walk o} (h : ∀ c, (pick c).Keeps) :
    (choose tag pick).Keeps := by
  intro c
  cases c with
  | none => rfl
  | some c => exact h c (some c)

theorem keeps_forEach (name : String) {body : Walk o} (h : body.Keeps) (items : List (ValueOf o)) :
    (forEach name body items).Keeps := by
  induction items with
  | nil => exact keeps_nothing
  | cons item rest ih => exact keeps_followedBy (withVariable_keeps name item body h) ih

theorem keeps_overItems (s : Settings) (name source : String) {content : Walk o}
    (h : content.Keeps) (v : Option (ValueOf o)) : (overItems s name source content v).Keeps := by
  rw [overItems.eq_def]
  split
  · exact keeps_nothing
  · exact keeps_nothing
  · split
    · exact keeps_steps _
    · exact keeps_forEach name h _
  · exact keeps_steps _

/-- The steps of neighbours, when the first one leaves the context alone. -/
theorem run_followedBy {a b : Walk o} (ha : a.Keeps) (c : Option (Context o)) :
    ((a.followedBy b).run c).1 = (a.run c).1 ++ (b.run c).1 := by
  show (a.run c).1 ++ (b.run (a.run c).2).1 = _
  rw [ha]

/-- The steps of one item of a loop. -/
theorem run_withVariable (name : String) (item : ValueOf o) (body : Walk o) (context : Context o) :
    ((withVariable name item body).run (some context)).1
      = if Text.allBlank name then [.fault .blankKey]
        else (body.run (some (context.pushScope.bind name item))).1 := by
  -- The scope is open by now, so only a blank name can fail.
  have hb : context.pushScope.setLoopVariable name item
      = context.pushScope.add name item := if_neg Bool.noConfusion
  rw [Context.add] at hb
  by_cases hn : Text.allBlank name
  · rw [if_pos hn] at hb ⊢
    simp only [withVariable, hb]
  · rw [if_neg hn] at hb ⊢
    simp only [withVariable, hb]

/-- The steps of a content between two styles. -/
theorem run_between (on off : Style) {content : Walk o} (h : content.Keeps)
    (c : Option (Context o)) :
    ((between on off content).run c).1
      = .command (.style on) :: (content.run c).1 ++ [.command (.style off)] := by
  rw [between, run_followedBy (keeps_followedBy (keeps_steps _) h), run_followedBy (keeps_steps _)]
  rfl

variable [Members o]

theorem keeps_conditional (t : Tag) {content : Walk o} (h : content.Keeps) :
    (conditional t content).Keeps := by
  rw [conditional]
  split
  · exact keeps_steps _
  · refine keeps_choose _ ?_
    intro c
    split
    · exact h
    · exact keeps_nothing

theorem keeps_loop (s : Settings) (t : Tag) {content : Walk o} (h : content.Keeps) :
    (loop s t content).Keeps := by
  rw [loop]
  split
  · exact keeps_steps _
  split
  · exact keeps_steps _
  · exact keeps_choose _ fun c => keeps_overItems s _ _ h _

theorem keeps_element (s : Settings) (e : Encoding) (t : Tag) (text : String) {content : Walk o}
    (h : content.Keeps) : (element s e t text content).Keeps :=
  element_cases (fun _ => keeps_steps _) (fun _ => keeps_steps _) (fun _ => keeps_conditional t h)
    (fun _ => keeps_loop s t h) (fun on off _ => keeps_between on off h) (fun _ _ => keeps_steps _)
    (fun _ _ => keeps_steps _) (fun _ _ => keeps_steps _) (fun _ => h)

mutual

/-- **A WALK LEAVES THE CONTEXT AS IT WAS**, whether its steps succeed or not. -/
theorem keeps_node (s : Settings) (e : Encoding) : ∀ n : Node, (node (o := o) s e n).Keeps
  | .text content => by
      rw [node]
      split
      · exact keeps_nothing
      · exact keeps_steps _
  | .element name attributes children => by
      rw [node]
      split
      · exact keeps_steps _
      · exact keeps_element s _ _ _ (keeps_nodes s _ children)

theorem keeps_nodes (s : Settings) (e : Encoding) : ∀ ns : List Node, (nodes (o := o) s e ns).Keeps
  | [] => keeps_nothing
  | n :: rest => by
      rw [nodes]
      exact keeps_followedBy (keeps_node s e n) (keeps_nodes s e rest)

end

/-- The walk of neighbours is that of the first ones, then that of the others. -/
theorem run_nodes_append {s : Settings} {e : Encoding} (ns ms : List Node)
    (c : Option (Context o)) :
    ((nodes s e (ns ++ ms)).run c).1 = ((nodes s e ns).run c).1 ++ ((nodes s e ms).run c).1 := by
  induction ns with
  | nil => rfl
  | cons n rest ih =>
      have first : (node (o := o) s e n).Keeps := keeps_node s e n
      rw [List.cons_append, nodes, nodes, run_followedBy first, run_followedBy first, ih,
        List.append_assoc]

end Walk

/-! ## Steps and events -/

namespace Step

/-- What a step means. -/
def events : Step → List Event
  | .command c => c.events
  | .image .. => [.skip, .image]
  | .fault _ => []

/-- A step whose text, if it has one, is legible. -/
def Legible : Step → Prop
  | .command c => c.Legible
  | _ => True

/-- Whether a step is an error that ends the job. -/
def isFault : Step → Bool
  | .fault _ => true
  | _ => false

/-- Steps none of which is an error. -/
def Faultless (parts : List Step) : Prop :=
  ∀ step ∈ parts, step.isFault = false

theorem faultless_append {xs ys : List Step} :
    Faultless (xs ++ ys) ↔ Faultless xs ∧ Faultless ys :=
  List.forall_mem_append

theorem faultless_cons {step : Step} {rest : List Step} :
    Faultless (step :: rest) ↔ step.isFault = false ∧ Faultless rest :=
  List.forall_mem_cons

theorem not_faultless_fault (e : Error) (rest : List Step) : ¬ Faultless (.fault e :: rest) :=
  fun h => Bool.noConfusion (faultless_cons.mp h).1

variable {load : String → Except FileFault Bytes}

/-- The bytes of a step are read as its events. -/
theorem reads {step : Step} {bytes : Bytes} (sent : step.bytes load = .ok bytes)
    (legible : step.Legible) : Event.Reads bytes step.events := by
  cases step with
  | command c =>
      obtain ⟨hc, rfl⟩ := Command.encode_eq_ok sent
      exact c.reads_bytes hc legible
  | image path function =>
      rw [Step.bytes] at sent
      split at sent
      · cases sent
      · obtain ⟨image, -, hcs⟩ := Bmp.encodeAll_of_print sent
        obtain ⟨hs, rfl⟩ := Command.sent_of_encodeAll hcs
        exact Command.reads_flatMap hs (Bmp.legible_printCommands image function)
  | fault e => cases sent

theorem isFault_of_sent {step : Step} {bytes : Bytes} (sent : step.bytes load = .ok bytes) :
    step.isFault = false := by
  cases step with
  | fault e => cases sent
  | _ => rfl

/-- Steps whose bytes are known succeed one by one. -/
theorem allBytes_cons_eq_ok {step : Step} {rest : List Step} {bytes : Bytes}
    (h : allBytes load (step :: rest) = .ok bytes) :
    ∃ first others, step.bytes load = .ok first ∧ allBytes load rest = .ok others
      ∧ bytes = first ++ others := by
  rw [allBytes_cons] at h
  obtain ⟨first, hf, h⟩ := bind_eq_ok h
  obtain ⟨others, ho, rfl⟩ := map_eq_ok h
  exact ⟨first, others, hf, ho, rfl⟩

theorem faultless_of_allBytes {parts : List Step} {bytes : Bytes}
    (h : allBytes load parts = .ok bytes) : Faultless parts := by
  induction parts generalizing bytes with
  | nil =>
      intro step hs
      cases hs
  | cons step rest ih =>
      obtain ⟨first, others, hf, ho, -⟩ := allBytes_cons_eq_ok h
      exact faultless_cons.mpr ⟨isFault_of_sent hf, ih ho⟩

/-- The bytes of a job are read as the events of its steps. -/
theorem reads_allBytes {parts : List Step} {bytes : Bytes}
    (h : allBytes load parts = .ok bytes) (legible : ∀ step ∈ parts, step.Legible) :
    Event.Reads bytes (parts.flatMap events) := by
  induction parts generalizing bytes with
  | nil =>
      rw [← Except.ok.inj h]
      exact .nil
  | cons step rest ih =>
      obtain ⟨first, others, hf, ho, rfl⟩ := allBytes_cons_eq_ok h
      rw [List.forall_mem_cons] at legible
      exact (reads hf legible.1).append (ih ho legible.2)

end Step

/-! ## Conditions and loops -/

/-- The value of an attribute that must not be empty. -/
theorem Tag.value_of_required {t : Tag} {attr v : String} (h : t.required attr = .ok v) :
    t.value attr = v := by
  rw [Tag.required] at h
  split at h
  next w hw =>
    obtain ⟨hget, -⟩ := Option.filter_eq_some_iff.mp hw
    rw [Tag.value, hget]
    exact Except.ok.inj h
  · cases h

namespace Walk

variable {o : Type}

/-- A loop that does not fail runs over the items of its list, if there is one. -/
theorem run_overItems {s : Settings} {name source : String} {content : Walk o}
    {v : Option (ValueOf o)} {x : Context o}
    (sent : Step.Faultless ((overItems s name source content v).run (some x)).1) :
    ((overItems s name source content v).run (some x)).1
      = ((forEach name content ((v.bind ValueOf.items?).getD [])).run (some x)).1 := by
  rw [overItems.eq_def] at sent ⊢
  cases v with
  | none => rfl
  | some v =>
      cases v with
      | null => rfl
      | list items =>
          dsimp only at sent ⊢
          cases hf : loopFault? s source items with
          | some e =>
              rw [hf] at sent
              exact absurd sent (Step.not_faultless_fault e [])
          | none => rfl
      | _ => exact absurd sent (Step.not_faultless_fault (.notEnumerable source) [])

end Walk

/-! ## Compiling -/

/-- A receipt that compiles has a plan, and its bytes are those of the plan's
    steps. -/
theorem Settings.plan_of_compile {o : Type} [Members o] {s : Settings}
    {load : String → Except FileFault Bytes} {root : Element} {c : Option (Context o)}
    {bytes : Bytes} (h : (s.compile load root c).1 = .ok bytes) :
    ∃ e, Encoding.ofName s.encoding = .ok e
      ∧ (s.plan root c).1 = .ok ((Walk.node s e root.toNode).run c).1
      ∧ Step.allBytes load ((Walk.node s e root.toNode).run c).1 = .ok bytes := by
  have hp : (s.plan root c).1.bind (Step.allBytes load) = .ok bytes := h
  rw [plan] at hp ⊢
  dsimp only at hp ⊢
  split at hp
  · cases hp
  · cases hp
  next hv he => exact ⟨_, he, rfl, hp⟩

end ReceiptPrinter
