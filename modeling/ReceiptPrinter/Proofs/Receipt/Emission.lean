import ReceiptPrinter.Proofs.Receipt.Walks
import ReceiptPrinter.Receipt.File

/-! # Emission — a receipt sent element by element

    A walk lists all steps of a receipt before the first is carried out.  An
    emission does not wait: it appends the bytes of each step as it comes, hands
    the context on, and when a step fails it fails at once, wherever it is,
    with the scopes that are open at that point.  A loop has to close its scope
    on that way out too (`Emission.inScope`).

    The two are the same (`Emission.carries_node`): an emission that fails in
    the middle of nested loops has closed every scope by the time it is through,
    and so leaves the context as it found it (`Settings.context_of_compile`). -/

namespace ReceiptPrinter

open Markup (Node Element directText)

/-- Bytes that are appended under a context, or an error, and the context that
    is left. -/
structure Emission (o : Type) where
  run : Option (Context o) → Bytes → Except Error Bytes × Option (Context o)

namespace Emission

/-! ## Sending as one goes -/

variable {o : Type}

/-- The emission of nothing. -/
def nothing : Emission o := ⟨fun c out => (.ok out, c)⟩

/-- An emission that fails. -/
def fail (e : Error) : Emission o := ⟨fun c _ => (.error e, c)⟩

/-- Appends the bytes of steps up to the first that fails. -/
def sendAll (load : String → Except FileFault Bytes) : List Step → Bytes → Except Error Bytes
  | [], out => .ok out
  | step :: rest, out =>
    match step.bytes load with
    | .error e => .error e
    | .ok bytes => sendAll load rest (out ++ bytes)

/-- Steps that look at the context and leave it alone. -/
def steps (load : String → Except FileFault Bytes) (parts : Option (Context o) → List Step) :
    Emission o :=
  ⟨fun c out => (sendAll load (parts c) out, c)⟩

/-- An emission after another, unless that one fails. -/
def followedBy (a b : Emission o) : Emission o :=
  ⟨fun c out =>
    match a.run c out with
    | (.error e, c) => (.error e, c)
    | (.ok out, c) => b.run c out⟩

/-- An emission that is chosen by the context, which the tag of the given name
    cannot do without. -/
def choose (tag : String) (pick : Context o → Emission o) : Emission o :=
  ⟨fun c out =>
    match c with
    | none => (.error (.contextRequired tag), none)
    | some x => (pick x).run c out⟩

/-- One item of a loop: a scope is opened, the variable is bound and the body
    runs.  Whether that went well or not, the scope is closed before anything
    else is done about it. -/
def inScope (tag name : String) (item : ValueOf o) (body : Emission o) : Emission o :=
  choose tag fun x =>
    ⟨fun _ out =>
      let opened := x.pushScope
      let (result, after) : Except Error Bytes × Option (Context o) :=
        match opened.setLoopVariable name item with
        | .error e => (.error e, some opened)
        | .ok inner => body.run (some inner) out
      match after with
      | none => (.error (.contextRequired tag), none)
      | some y =>
        match y.popScope with
        | .error e => (.error e, some y)
        | .ok outer => (result, some outer)⟩

/-- An emission once per item. -/
def forEach (tag name : String) (body : Emission o) : List (ValueOf o) → Emission o
  | [] => nothing
  | item :: rest => (inScope tag name item body).followedBy (forEach tag name body rest)

/-! ## Elements -/

variable (s : Settings) (load : String → Except FileFault Bytes)

/-- The items of a value, unless there are too many or it is no list. -/
def overItems (tag name source : String) (content : Emission o) : Option (ValueOf o) → Emission o
  | none => nothing
  | some .null => nothing
  | some (.list items) =>
    match Walk.loopFault? s source items with
    | some e => fail e
    | none => forEach tag name content items
  | some _ => fail (.notEnumerable source)

/-- A content between two styles. -/
def between (on off : Style) (content : Emission o) : Emission o :=
  ((steps load fun _ => [.command (.style on)]).followedBy content).followedBy
    (steps load fun _ => [.command (.style off)])

variable [Members o]

/-- An element that takes its content when a condition holds. -/
def conditional (t : Tag) (content : Emission o) : Emission o :=
  match t.required "condition" with
  | .error e => fail e
  | .ok condition =>
    choose t.name fun x => if (x.get? condition).any ValueOf.isTruthy then content else nothing

/-- An element that repeats its content. -/
def loop (t : Tag) (content : Emission o) : Emission o :=
  match t.required "var" with
  | .error e => fail e
  | .ok name =>
    match t.required "in" with
    | .error e => fail e
    | .ok source =>
      choose t.name fun x => overItems s t.name name source content (x.get? source)

/-- The emission of an element of a form. -/
def ofForm (e : Encoding) (t : Tag) (text : String) (content : Emission o) : Tag.Form → Emission o
  | .text => steps load fun c => [.command (.text e (fill c text))]
  | .line => steps load fun c => [.command (.line e (fill c text))]
  | .chosen => conditional t content
  | .repeated => loop s t content
  | .styled on off => between load on off content
  | .refused fault => fail fault
  | .fixed parts => steps load fun _ => Walk.ofSteps (parts.map (·.map .command))
  | .filled parts => steps load fun c => Walk.ofSteps (parts (fill c))
  | .transparent => content

mutual

/-- The emission of a child.  Text that is all blank is left out. -/
def node (e : Encoding) : Node → Emission o
  | .text content =>
    if Text.allBlank content then nothing
    else steps load fun c => [.command (.text e (fill c content))]
  | .element name attributes children =>
    match Walk.encodingOf e attributes with
    | .error fault => fail fault
    | .ok e =>
      ofForm s load e ⟨name, attributes⟩ (directText children) (nodes e children)
        (Tag.form ⟨name, attributes⟩ s.locate)

/-- The emission of children one after the other. -/
def nodes (e : Encoding) : List Node → Emission o
  | [] => nothing
  | child :: rest => (node e child).followedBy (nodes e rest)

end

end Emission

/-- The bytes of a receipt sent element by element, and the context afterwards. -/
def Settings.emit {o : Type} [Members o] (s : Settings)
    (load : String → Except FileFault Bytes) (root : Element)
    (c : Option (Context o)) : Except Error Bytes × Option (Context o) :=
  let checked := if s.validate then root.validate else .ok ()
  match checked, Encoding.ofName s.encoding with
  | .error e, _ => (.error e, c)
  | .ok (), .error e => (.error e, c)
  | .ok (), .ok e => (Emission.node s load e root.toNode).run c []

/-! ## Emissions and walks -/

namespace Emission

variable {s : Settings} {load : String → Except FileFault Bytes} {o : Type}
  {c : Option (Context o)}

/-- Steps sent one after the other are sent as a job. -/
theorem sendAll_eq (parts : List Step) (out : Bytes) :
    sendAll load parts out = (Step.allBytes load parts).map (out ++ ·) := by
  induction parts generalizing out with
  | nil => exact congrArg Except.ok (List.append_nil out).symm
  | cons step rest ih =>
      rw [sendAll, Step.allBytes_cons]
      cases step.bytes load with
      | error e => rfl
      | ok bytes =>
          dsimp only
          rw [ih]
          show _ = ((Step.allBytes load rest).map (bytes ++ ·)).map (out ++ ·)
          cases Step.allBytes load rest with
          | error e => rfl
          | ok others => exact congrArg Except.ok (List.append_assoc out bytes others)

/-- An emission that does what a walk says, under one context: it appends the
    bytes of the steps, or fails with the error of the first that fails, and in
    both cases leaves the context as it was. -/
def Carries (load : String → Except FileFault Bytes) (m : Emission o) (w : Walk o)
    (c : Option (Context o)) : Prop :=
  ∀ out, m.run c out = ((Step.allBytes load (w.run c).1).map (out ++ ·), c)

theorem carries_nothing : Carries load nothing Walk.nothing c := by
  intro out
  show (Except.ok out, c) = (Except.ok (out ++ []), c)
  rw [List.append_nil]

theorem carries_fail (e : Error) : Carries load (fail e) (Walk.fail e) c :=
  fun _ => rfl

theorem carries_steps (parts : Option (Context o) → List Step) :
    Carries load (steps load parts) (Walk.steps parts) c :=
  fun out => congrArg (·, c) (sendAll_eq (parts c) out)

theorem carries_followedBy {a b : Emission o} {v w : Walk o} (keeps : v.Keeps)
    (ha : Carries load a v c) (hb : Carries load b w c) :
    Carries load (a.followedBy b) (v.followedBy w) c := by
  intro out
  rw [Walk.run_followedBy keeps, Step.allBytes_append, followedBy]
  dsimp only
  rw [ha out]
  cases Step.allBytes load (v.run c).1 with
  | error e => rfl
  | ok first =>
      show b.run c (out ++ first) = _
      rw [hb (out ++ first)]
      cases Step.allBytes load (w.run c).1 with
      | error e => rfl
      | ok others =>
          exact congrArg (fun bytes => (Except.ok bytes, c)) (List.append_assoc out first others)

theorem carries_choose (tag : String) {pick : Context o → Emission o} {walk : Context o → Walk o}
    (h : ∀ x, c = some x → Carries load (pick x) (walk x) c) :
    Carries load (choose tag pick) (Walk.choose tag walk) c := by
  intro out
  cases c with
  | none => rfl
  | some x => exact h x rfl out

/-- **THE SCOPE OF AN ITEM IS CLOSED AGAIN**, whether its variable is bound or not
    and whether its body fails or not. -/
theorem carries_inScope (tag name : String) (item : ValueOf o) {body : Emission o} {w : Walk o}
    (h : ∀ c, Carries load body w c) (x : Context o) :
    Carries load (inScope tag name item body) (Walk.withVariable name item w) (some x) := by
  intro out
  rw [inScope, Walk.withVariable]
  dsimp only [choose]
  cases hv : x.pushScope.setLoopVariable name item with
  | error e => rfl
  | ok inner =>
      dsimp only
      rw [h (some inner) out]
      dsimp only
      rw [Context.popScope_setLoopVariable hv]

theorem carries_forEach (tag name : String) {body : Emission o} {w : Walk o} (keeps : w.Keeps)
    (h : ∀ c, Carries load body w c) (x : Context o) (items : List (ValueOf o)) :
    Carries load (forEach tag name body items) (Walk.forEach name w items) (some x) := by
  induction items with
  | nil => exact carries_nothing
  | cons item rest ih =>
      exact carries_followedBy (Walk.withVariable_keeps name item w keeps)
        (carries_inScope tag name item h x) ih

theorem carries_overItems (tag name source : String) {content : Emission o} {w : Walk o}
    (keeps : w.Keeps) (h : ∀ c, Carries load content w c) (v : Option (ValueOf o)) (x : Context o) :
    Carries load (overItems s tag name source content v) (Walk.overItems s name source w v)
      (some x) := by
  rw [overItems.eq_def, Walk.overItems.eq_def]
  cases v with
  | none => exact carries_nothing
  | some v =>
      cases v with
      | null => exact carries_nothing
      | list items =>
          dsimp only
          cases Walk.loopFault? s source items with
          | some e => exact carries_fail e
          | none => exact carries_forEach tag name keeps h x items
      | _ => exact carries_fail _

theorem carries_between (on off : Style) {content : Emission o} {w : Walk o} (keeps : w.Keeps)
    (h : Carries load content w c) :
    Carries load (between load on off content) (Walk.between on off w) c :=
  carries_followedBy (Walk.keeps_followedBy (Walk.keeps_steps _) keeps)
    (carries_followedBy (Walk.keeps_steps _) (carries_steps _) h) (carries_steps _)

variable [Members o]

theorem carries_conditional (t : Tag) {content : Emission o} {w : Walk o}
    (h : ∀ c, Carries load content w c) :
    Carries load (conditional t content) (Walk.conditional t w) c := by
  rw [conditional, Walk.conditional]
  cases t.required "condition" with
  | error e => exact carries_fail e
  | ok condition =>
      refine carries_choose t.name ?_
      intro x _
      split
      · exact h c
      · exact carries_nothing

theorem carries_loop (t : Tag) {content : Emission o} {w : Walk o} (keeps : w.Keeps)
    (h : ∀ c, Carries load content w c) :
    Carries load (loop s t content) (Walk.loop s t w) c := by
  rw [loop, Walk.loop]
  cases t.required "var" with
  | error e => exact carries_fail e
  | ok name =>
      dsimp only
      cases t.required "in" with
      | error e => exact carries_fail e
      | ok source =>
          refine carries_choose t.name ?_
          rintro x rfl
          exact carries_overItems t.name name source keeps h (x.get? source) x

theorem carries_ofForm (e : Encoding) (t : Tag) (text : String) {content : Emission o} {w : Walk o}
    (keeps : w.Keeps) (h : ∀ c, Carries load content w c) (form : Tag.Form) :
    Carries load (ofForm s load e t text content form) (Walk.ofForm s e t text w form) c := by
  cases form with
  | text => exact carries_steps _
  | line => exact carries_steps _
  | chosen => exact carries_conditional t h
  | repeated => exact carries_loop t keeps h
  | styled on off => exact carries_between on off keeps (h c)
  | refused fault => exact carries_fail fault
  | fixed parts => exact carries_steps _
  | filled parts => exact carries_steps _
  | transparent => exact h c

mutual

/-- **AN EMISSION DOES WHAT THE WALK SAYS**, by induction on the tree: under every
    context it sends the bytes of the walk's steps, and what it leaves of the
    context, sent or failed, is the context. -/
theorem carries_node (e : Encoding) :
    ∀ (n : Node) (c : Option (Context o)), Carries load (node s load e n) (Walk.node s e n) c
  | .text content, c => by
      rw [node, Walk.node]
      split
      · exact carries_nothing
      · exact carries_steps _
  | .element name attributes children, c => by
      rw [node, Walk.node]
      cases Walk.encodingOf e attributes with
      | error fault => exact carries_fail fault
      | ok e =>
          dsimp only
          rw [Walk.element_eq_ofForm]
          exact carries_ofForm e _ _ (Walk.keeps_nodes s e children) (carries_nodes e children) _

theorem carries_nodes (e : Encoding) :
    ∀ (ns : List Node) (c : Option (Context o)),
      Carries load (nodes s load e ns) (Walk.nodes s e ns) c
  | [], c => carries_nothing
  | n :: rest, c => by
      rw [nodes, Walk.nodes]
      exact carries_followedBy (Walk.keeps_node s e n) (carries_node e n c) (carries_nodes e rest c)

end

end Emission

/-! ## Compiling -/

variable {o : Type} [Members o]

/-- Listing the steps of a receipt leaves the context as it was. -/
theorem Settings.plan_context (s : Settings) (root : Element) (c : Option (Context o)) :
    (s.plan root c).2 = c := by
  rw [plan]
  dsimp only
  split
  · rfl
  · rfl
  next e _ _ => exact Walk.keeps_node s e root.toNode c

/-- A receipt that is sent element by element sends the bytes that it is compiled
    to, or fails with the same error. -/
theorem Settings.emit_eq (s : Settings) (load : String → Except FileFault Bytes) (root : Element)
    (c : Option (Context o)) : s.emit load root c = ((s.compile load root c).1, c) := by
  rw [emit, compile, plan]
  dsimp only
  cases if s.validate then root.validate else Except.ok () with
  | error e => rfl
  | ok checked =>
      cases Encoding.ofName s.encoding with
      | error e => rfl
      | ok e =>
          show (Emission.node s load e root.toNode).run c []
            = (Step.allBytes load ((Walk.node s e root.toNode).run c).1, c)
          rw [Emission.carries_node e root.toNode c []]
          cases Step.allBytes load ((Walk.node s e root.toNode).run c).1 <;> rfl

/-- **COMPILING LEAVES THE CONTEXT ALONE**, bindings and scopes, whatever comes of it.
    That is so of the compiler, which lists all steps before one can fail, and of a
    receipt that is sent as it goes and stops in the middle of its loops: the two
    are the same, in what they give and in what they leave. -/
theorem Settings.context_of_compile (s : Settings) (load : String → Except FileFault Bytes)
    (root : Element) (c : Option (Context o)) :
    (s.compile load root c).2 = c ∧ s.emit load root c = s.compile load root c := by
  have left : (s.compile load root c).2 = c := s.plan_context root c
  refine ⟨left, ?_⟩
  rw [emit_eq]
  exact Prod.ext rfl left.symm

/-- Reading the images of a receipt on the way does not change that. -/
theorem Settings.compileReading_context {m : Type → Type} {handle : Type} [Monad m]
    [LawfulMonad m] [FileAccess m handle] (s : Settings) (root : Element) (c : Option (Context o)) :
    (do let r ← s.compileReading (m := m) root c; pure (r.1, c)) = s.compileReading root c := by
  have planned : s.plan root c = ((s.plan root c).1, c) := Prod.ext rfl (s.plan_context root c)
  rw [compileReading, planned]
  dsimp only
  cases (s.plan root c).1 with
  | error e => simp only [pure_bind]
  | ok parts => simp only [bind_assoc, pure_bind]

end ReceiptPrinter
