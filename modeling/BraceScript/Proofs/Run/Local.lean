-- Steps that do not depend on the frames below the innermost one. Every change of
-- variables is such a step, and what is made up of such steps is one too: so it
-- holds of every expression and of every statement.
import BraceScript.Proofs.Environment.Changes
import BraceScript.Proofs.Run.Lockstep

namespace BraceScript

variable {α β γ : Type}

/-! ## Other callers -/

namespace Environment

/-- The environment with other frames below the innermost one. Outside of calls there is no such
frame. -/
def withCallers (callers : List Scope) (e : Environment) : Environment :=
  match e.frames with
  | [] => e
  | frame :: _ => { e with frames := frame :: callers }

section

variable (callers : List Scope) (e : Environment) (name : String) (scope : Scope)

@[simp] theorem globals_withCallers : (e.withCallers callers).globals = e.globals := by
  obtain ⟨_, frames, _⟩ := e
  cases frames <;> rfl

@[simp] theorem innermost_withCallers : (e.withCallers callers).innermost = e.innermost := by
  obtain ⟨_, frames, _⟩ := e
  cases frames <;> rfl

@[simp] theorem scopeOf_withCallers : (e.withCallers callers).scopeOf name = e.scopeOf name := by
  obtain ⟨_, frames, _⟩ := e
  cases frames <;> rfl

@[simp] theorem lookup_withCallers : (e.withCallers callers).lookup name = e.lookup name := by
  unfold lookup
  rw [scopeOf_withCallers]

@[simp] theorem function?_withCallers :
    (e.withCallers callers).function? name = e.function? name := by
  obtain ⟨_, frames, _⟩ := e
  cases frames <;> rfl

@[simp] theorem checkAssignable_withCallers :
    (e.withCallers callers).checkAssignable name = e.checkAssignable name := by
  unfold checkAssignable
  rw [scopeOf_withCallers]

theorem setInnermost_withCallers :
    (e.withCallers callers).setInnermost scope = (e.setInnermost scope).withCallers callers := by
  obtain ⟨_, frames, _⟩ := e
  cases frames <;> rfl

theorem setScopeOf_withCallers :
    (e.withCallers callers).setScopeOf name scope =
      (e.setScopeOf name scope).withCallers callers := by
  obtain ⟨_, frames, _⟩ := e
  cases frames with
  | nil => rfl
  | cons frame frames =>
    unfold setScopeOf frameContains withCallers
    dsimp only
    by_cases h : frame.contains name <;> simp [h, setInnermost]

theorem unsetGlobal_withCallers :
    (e.withCallers callers).unsetGlobal name = (e.unsetGlobal name).withCallers callers := by
  obtain ⟨_, frames, _⟩ := e
  cases frames <;> rfl

end

/-- The change depends on no frame but the innermost one, and makes and removes none. -/
structure ChangesLocally (change : Environment → Except Refusal Environment) : Prop where
  callers (callers e) : change (e.withCallers callers) = (change e).map (withCallers callers)
  depth {e e'} : change e = .ok e' → e'.depth = e.depth

end Environment

theorem VariableChange.locally {change : Environment → Except Refusal Environment}
    (h : VariableChange change) : Environment.ChangesLocally change := by
  cases h with
  | declare name value immutable =>
    refine ⟨fun callers e => ?_, fun h => (Operation.changes_declare h).depth⟩
    simp only [Environment.declare, Environment.innermost_withCallers,
      Environment.globals_withCallers, Environment.setInnermost_withCallers]
    split
    · rfl
    split <;> rfl
  | check name =>
    refine ⟨fun callers e => ?_, fun {e e'} h => ?_⟩
    · rw [Environment.checkAssignable_withCallers]
      cases e.checkAssignable name <;> rfl
    · cases hc : e.checkAssignable name <;> rw [hc] at h <;> cases h
      rfl
  | assign name value =>
    refine ⟨fun callers e => ?_, fun h => (Operation.changes_assign h).depth⟩
    simp only [Environment.assign, Environment.checkAssignable_withCallers,
      Environment.scopeOf_withCallers, Environment.setScopeOf_withCallers]
    split <;> rfl
  | setGlobal name value =>
    refine ⟨fun callers e => ?_, fun h => (Operation.changes_setGlobal h).depth⟩
    simp only [Environment.setGlobal, Environment.globals_withCallers]
    split
    · rfl
    · obtain ⟨_, frames, _⟩ := e
      cases frames <;> rfl
  | delete name =>
    refine ⟨fun callers e => ?_, fun h => (Operation.changes_deleteVariable h).depth⟩
    simp only [Environment.deleteVariable, Environment.innermost_withCallers,
      Environment.checkAssignable_withCallers, Environment.scopeOf_withCallers,
      Environment.setInnermost_withCallers, Environment.setScopeOf_withCallers]
    split
    · split <;> rfl
    · split <;> rfl

theorem defineFunction_locally (f : Function) :
    Environment.ChangesLocally (·.defineFunction f) := by
  refine ⟨fun callers e => ?_, fun h => (Operation.changes_defineFunction h).depth⟩
  obtain ⟨_, frames, _⟩ := e
  simp only [Environment.defineFunction]
  cases frames <;> split <;> rfl

theorem deleteFunction_locally (name : String) :
    Environment.ChangesLocally (·.deleteFunction name) := by
  refine ⟨fun callers e => ?_, fun h => (Operation.changes_deleteFunction h).depth⟩
  obtain ⟨_, frames, _⟩ := e
  simp only [Environment.deleteFunction, Environment.function?_withCallers]
  split
  · cases frames <;> rfl
  split
  · cases frames <;> rfl
  · rfl

/-- The state with other frames below the innermost one. -/
def State.withCallers (callers : List Scope) (st : State) : State :=
  { st with env := st.env.withCallers callers }

/-- The state with other frames. -/
def State.withFrames (frames : List Scope) (st : State) : State :=
  { st with env := { st.env with frames } }

/-! ## Local steps -/

/-- The step depends on no frame but the innermost one and changes no other, and whatever `kept`
tells about the frames is the same at its end. -/
structure Exec.Local (kept : List Scope → β) (x : Exec α) : Prop where
  callers (callers st) : x (st.withCallers callers) = (x st).change (State.withCallers callers)
  keeps {st st'} : st' ∈ (x st).state? → kept st'.env.frames = kept st.env.frames

namespace Exec.Local

variable {kept : List Scope → β}

theorem length {x : Exec α} (h : x.Local id) : x.Local List.length :=
  ⟨h.callers, fun ends => congrArg List.length (h.keeps ends)⟩

theorem pure (v : α) : (Pure.pure v : Exec α).Local kept := by
  refine ⟨fun _ _ => rfl, ?_⟩
  rintro st _ ⟨⟩
  rfl

theorem failAt (span : Span) (cause : Fault.Cause) :
    (Exec.failAt span cause : Exec α).Local kept := by
  refine ⟨fun _ _ => rfl, ?_⟩
  rintro st _ ⟨⟩
  rfl

theorem fail (cause : Fault.Cause) : (Exec.fail cause : Exec α).Local kept := by
  refine ⟨fun _ _ => rfl, ?_⟩
  rintro st _ ⟨⟩
  rfl

theorem stop (reason : Break) : (Exec.stop reason : Exec α).Local kept := by
  refine ⟨fun _ _ => rfl, ?_⟩
  rintro st _ ⟨⟩

theorem ofExcept (r : Except Fault.Cause α) : (Exec.ofExcept r).Local kept := by
  cases r with
  | ok v => exact pure v
  | error cause => exact fail cause

theorem bind {x : Exec α} {f : α → Exec γ} (hx : x.Local kept) (hf : ∀ v, (f v).Local kept) :
    (x >>= f).Local kept := by
  refine ⟨fun callers st => ?_, fun {st st'} ends => ?_⟩
  · rw [Exec.bind_eq_andThen, Exec.bind_eq_andThen, hx.callers]
    cases x st with
    | ok v mid => exact (hf v).callers callers mid
    | failed | broken => rfl
  · rw [Exec.bind_eq_andThen] at ends
    have first := @hx.keeps st
    cases h : x st with
    | ok v mid =>
      rw [h] at ends first
      exact ((hf v).keeps ends).trans (first rfl)
    | failed | broken =>
      rw [h] at ends first
      exact first ends

theorem get_bind {f : State → Exec α} (same : ∀ callers st, f (st.withCallers callers) = f st)
    (hf : ∀ st, (f st).Local kept) : (Exec.get >>= f).Local kept := by
  refine ⟨fun callers st => ?_, fun {st st'} ends => (hf st).keeps ends⟩
  rw [Exec.get_bind, Exec.get_bind, same]
  exact (hf st).callers callers st

theorem modify {f : State → State}
    (same : ∀ callers st, f (st.withCallers callers) = (f st).withCallers callers)
    (keeps : ∀ st, kept (f st).env.frames = kept st.env.frames) : (Exec.modify f).Local kept := by
  refine ⟨fun callers st => ?_, ?_⟩
  · exact congrArg (Outcome.ok ()) (same callers st)
  · rintro st _ ⟨⟩
    exact keeps st

theorem within {x : Exec α} (span : Span) (hx : x.Local kept) :
    (Exec.within span x).Local kept := by
  refine ⟨fun callers st => ?_, fun {st st'} ends => hx.keeps ?_⟩
  · rw [Exec.within_apply, Exec.within_apply, hx.callers]
    cases x st <;> rfl
  · rwa [Exec.within_apply, Outcome.state?_refault] at ends

theorem bindings {change : Environment → Except Refusal Environment}
    (h : Environment.ChangesLocally change) (cause : Refusal → Fault.Cause) :
    (Exec.bindings change cause).Local List.length := by
  refine ⟨fun callers st => ?_, fun {st st'} ends => ?_⟩
  · have both := h.callers callers st.env
    unfold Exec.bindings State.withCallers
    rw [both]
    cases change st.env <;> rfl
  · have depth := @h.depth st.env
    unfold Exec.bindings at ends
    cases hc : change st.env with
    | ok env =>
      rw [hc] at ends
      cases ends
      exact depth hc
    | error =>
      rw [hc] at ends
      cases ends
      rfl

theorem afterwards {x : Exec α} {f : State → State} (hx : x.Local kept)
    (same : ∀ callers st, f (st.withCallers callers) = (f st).withCallers callers)
    (keeps : ∀ st, kept (f st).env.frames = kept st.env.frames) :
    (Exec.afterwards x f).Local kept := by
  refine ⟨fun callers st => ?_, fun {st st'} ends => ?_⟩
  · unfold Exec.afterwards
    rw [hx.callers]
    cases x st <;> simp only [Outcome.change, same]
  · have first := @hx.keeps st
    unfold Exec.afterwards at ends
    cases h : x st <;> rw [h] at ends first <;> cases ends
    · exact (keeps _).trans (first rfl)
    · exact (keeps _).trans (first rfl)

theorem withFile {x : Exec α} (file : Path) (hx : x.Local kept) :
    (Exec.withFile file x).Local kept := by
  refine ⟨fun callers st => ?_, fun {st st'} ends => ?_⟩
  · have inner := hx.callers callers { st with includes := file :: st.includes }
    rw [Exec.withFile_apply, Exec.withFile_apply]
    unfold State.withCallers at inner ⊢
    rw [inner]
    cases x _ <;> rfl
  · rw [Exec.withFile_apply, Outcome.state?_change] at ends
    obtain ⟨last, hlast, rfl⟩ := Option.map_eq_some_iff.1 ends
    have kept := hx.keeps hlast
    exact kept

end Exec.Local

/-- A step in a frame of its own sees none of the frames that there are, and leaves them all. -/
theorem Exec.Local.withFrame_withFrames {x : Exec α} (hx : x.Local List.length) (frame : Scope)
    (frames : List Scope) (st : State) :
    Exec.withFrame frame x (st.withFrames frames) =
      (Exec.withFrame frame x st).change (State.withFrames frames) := by
  have inner := hx.callers frames { st with env := st.env.pushFrame frame }
  have depth := @hx.keeps { st with env := st.env.pushFrame frame }
  have same : { st.withFrames frames with env := (st.withFrames frames).env.pushFrame frame } =
      State.withCallers frames { st with env := st.env.pushFrame frame } := rfl
  rw [Exec.withFrame_apply, Exec.withFrame_apply, same, inner]
  -- the frame is still there at the end, so there is one to remove
  have pop {last : State} (h : last.env.frames.length = st.env.frames.length + 1) :
      { last.withCallers frames with env := (last.withCallers frames).env.popFrame } =
        State.withFrames frames { last with env := last.env.popFrame } := by
    obtain ⟨⟨_, inside, _⟩, _, _, _⟩ := last
    cases inside with
    | nil => simp at h
    | cons => rfl
  cases h : x { st with env := st.env.pushFrame frame } with
  | ok v last =>
    rw [h] at depth
    exact congrArg (Outcome.ok v) (pop (depth rfl))
  | failed fault last =>
    rw [h] at depth
    exact congrArg (Outcome.failed fault) (pop (depth rfl))
  | broken => rfl

/-- So the frames are afterwards what they were before. -/
theorem Exec.Local.withFrame {x : Exec α} (hx : x.Local List.length) (frame : Scope) :
    (Exec.withFrame frame x).Local id := by
  have frames {st st' : State} (ends : st' ∈ (Exec.withFrame frame x st).state?) :
      st'.env.frames = st.env.frames := by
    have same := hx.withFrame_withFrames frame st.env.frames st
    rw [show st.withFrames st.env.frames = st from rfl] at same
    rw [same, Outcome.state?_change] at ends
    obtain ⟨last, -, rfl⟩ := Option.map_eq_some_iff.1 ends
    rfl
  refine ⟨fun callers st => ?_, frames⟩
  rw [show st.withCallers callers = st.withFrames (st.withCallers callers).env.frames by
    obtain ⟨⟨_, inside, _⟩, _, _, _⟩ := st
    cases inside <;> rfl, hx.withFrame_withFrames]
  have agree {last : State} (h : last.env.frames = st.env.frames) :
      last.withFrames (st.withCallers callers).env.frames = last.withCallers callers := by
    obtain ⟨⟨_, inside, _⟩, _, _, _⟩ := last
    obtain ⟨⟨_, _, _⟩, _, _, _⟩ := st
    obtain rfl := h
    cases inside <;> rfl
  cases h : Exec.withFrame frame x st with
  | ok v last => exact congrArg (Outcome.ok v) (agree (frames (by rw [h]; rfl)))
  | failed fault last => exact congrArg (Outcome.failed fault) (agree (frames (by rw [h]; rfl)))
  | broken => rfl

/-- Expressions leave all frames as they are, and statements leave as many as there were. -/
structure Evaluator.Local (ev : Evaluator) : Prop where
  expr (e) : (ev.expr e).Local id
  stmt (s) : (ev.stmt s).Local List.length

/-! ## Expressions -/

section

variable {host : Host} {ev : Evaluator} {kept : List Scope → β}

theorem local_readFile (name : String) (path : Path) : (host.readFile name path).Local kept := by
  unfold Host.readFile
  split
  · exact .pure _
  · exact .fail _
  · exact .stop _

theorem local_namedArray (name : String) : (namedArray name).Local kept := by
  refine .get_bind (fun callers st => ?_) fun st => ?_
  · simp only [State.withCallers, Environment.lookup_withCallers]
  · split
    · exact .pure _
    · exact .fail _
    · exact .fail _

theorem local_elementAt (array : String) (handle : Nat) (index : Value) :
    (elementAt array handle index).Local kept :=
  .get_bind (fun _ _ => rfl) fun _ => (Exec.Local.ofExcept _).bind fun _ => .pure _

theorem local_pushElement (handle : Nat) (value : Value) :
    (pushElement handle value).Local kept := by
  refine .bind (.modify (fun _ _ => ?_) fun _ => ?_) fun _ => ?_
  · rfl
  · rfl
  · exact .get_bind (fun _ _ => rfl) fun _ => .pure _

theorem local_removeElement (array : String) (handle : Nat) (key : Value) :
    (removeElement array handle key).Local kept := by
  refine .get_bind (fun _ _ => rfl) fun _ => (Exec.Local.ofExcept _).bind fun place => ?_
  refine .bind (.modify (fun _ _ => ?_) fun _ => ?_) fun _ => .pure _
  · rfl
  · rfl

theorem local_print (channel : Channel) (value : Value) :
    (Exec.print channel value).Local kept := by
  refine .modify (fun _ _ => ?_) fun _ => ?_
  · rfl
  · rfl

/-- A step that does nothing but look at the arrays and perhaps change them. -/
theorem local_heap {x : Exec α} {f : Heap → Except Fault.Cause (α × Heap)}
    (hx : ∀ st, x st = match f st.heap with
      | .ok (v, heap) => .ok v { st with heap }
      | .error cause => .failed { cause } st) : x.Local kept := by
  refine ⟨fun callers st => ?_, fun {st st'} ends => ?_⟩
  · rw [hx, hx, show (st.withCallers callers).heap = st.heap from rfl]
    split <;> rfl
  · rw [hx] at ends
    split at ends <;> cases ends <;> rfl

theorem local_newArray (items : List Value) : (Exec.newArray items).Local kept :=
  local_heap (f := fun h => .ok (.array (h.alloc items).1, (h.alloc items).2)) fun _ => rfl

theorem local_textual (function : TextFunction) (v : Value) : (textual function v).Local kept :=
  local_heap (f := fun h => function.apply h v) fun st => by
    unfold textual
    split <;> simp_all

theorem local_parseJson (v : Value) : (parseJson v).Local kept := by
  cases v with
  | text text =>
    let read (h : Heap) : Except Fault.Cause (Value × Heap) :=
      match h.ofJson text with
      | .ok r => .ok r
      | .error trouble => .error (.json trouble)
    refine local_heap (f := read) fun st => ?_
    unfold parseJson
    cases h : st.heap.ofJson text <;> simp only [read, h]
  | _ => exact .fail _

variable (parts : ev.Local)
include parts

theorem local_all (es : List Expr) : (ev.all es).Local id := by
  induction es with
  | nil => exact .pure []
  | cons e es ih => exact (parts.expr e).bind fun _ => ih.bind fun _ => .pure _

theorem local_block (ss : List Stmt) : (ev.block ss).Local List.length := by
  induction ss with
  | nil => exact .pure Flow.normal
  | cons s ss ih =>
    apply (parts.stmt s).bind
    intro flow
    cases flow with
    | normal => exact ih
    | returned v => exact .pure _

theorem local_holds (e : Expr) : (ev.holds e).Local id :=
  (parts.expr e).bind fun _ => .get_bind (fun _ _ => rfl) fun _ => .pure _

theorem local_call (name : String) (es : List Expr) : (call ev name es).Local id := by
  refine .get_bind (fun callers st => ?_) fun st => ?_
  · simp only [State.withCallers, Environment.function?_withCallers]
  · split
    · exact .fail _
    split
    · exact .fail _
    refine (local_all parts es).bind fun values => (Exec.Local.ofExcept _).bind fun frame => ?_
    apply ((local_block parts _).withFrame frame).bind
    intro flow
    cases flow <;> exact .pure _

theorem local_binary (op : BinaryOperator) (l r : Expr) : (binary ev op l r).Local id := by
  have left := local_holds parts l
  have right := local_holds parts r
  unfold binary
  split
  · apply left.bind
    intro b
    cases b with
    | true => exact right.bind fun _ => .pure _
    | false => exact .pure _
  · apply left.bind
    intro b
    cases b with
    | true => exact .pure _
    | false => exact right.bind fun _ => .pure _
  · exact (parts.expr l).bind fun _ => (parts.expr r).bind fun _ =>
      .get_bind (fun _ _ => rfl) fun _ => .ofExcept _

theorem local_readText (path : Expr) : (readText host ev path).Local id := by
  apply (parts.expr path).bind
  intro v
  cases v with
  | text name =>
    exact .get_bind (fun _ _ => rfl) fun _ => (local_readFile _ _).bind fun _ => .pure _
  | _ => exact .fail _

/-- An expression of any form. -/
theorem local_valueOf (form : ExprForm) : (valueOf host ev form).Local id := by
  cases form with
  | number | text | boolean | void => exact .pure _
  | name name =>
    refine .get_bind (fun callers st => ?_) fun st => ?_
    · simp only [State.withCallers, Environment.lookup_withCallers]
    · split
      · exact .pure _
      · exact .fail _
  | array items => exact (local_all parts items).bind fun _ => local_newArray _
  | binary op l r => exact local_binary parts op l r
  | unary op e =>
    exact (parts.expr e).bind fun _ => .get_bind (fun _ _ => rfl) fun _ => .ofExcept _
  | call name es => exact local_call parts name es
  | index array e =>
    exact (local_namedArray _).bind fun _ => (parts.expr e).bind fun _ => local_elementAt _ _ _
  | read e => exact local_readText parts e
  | append array e =>
    exact (local_namedArray _).bind fun _ => (parts.expr e).bind fun _ => local_pushElement _ _
  | remove array e =>
    exact (local_namedArray _).bind fun _ => (parts.expr e).bind fun _ => local_removeElement _ _ _
  | size array =>
    exact (local_namedArray _).bind fun _ => .get_bind (fun _ _ => rfl) fun _ => .pure _
  | toJson e =>
    refine (parts.expr e).bind fun v => .get_bind (fun _ _ => rfl) fun st => ?_
    split
    · exact .pure _
    · exact .fail _
  | parseJson e => exact (parts.expr e).bind fun _ => local_parseJson _
  | math f e => exact (parts.expr e).bind fun _ => .ofExcept _
  | textual f e => exact (parts.expr e).bind fun _ => local_textual _ _

/-! ## Statements -/

theorem local_whileLoop (e : Expr) (ss : List Stmt) (rounds : Nat) :
    (whileLoop ev e ss rounds).Local List.length := by
  induction rounds with
  | zero => exact .stop _
  | succ rounds ih =>
    apply (local_holds parts e).length.bind
    intro b
    cases b with
    | false => exact .pure Flow.normal
    | true =>
      apply (local_block parts ss).bind
      intro flow
      cases flow with
      | normal => exact ih
      | returned v => exact .pure _

theorem local_countRounds (counter : String) (last : Float) (ss : List Stmt) (rounds : Nat)
    (x : Float) : (countRounds ev counter last ss rounds x).Local List.length := by
  induction rounds generalizing x with
  | zero => exact .stop _
  | succ rounds ih =>
    unfold countRounds
    split
    · apply (Exec.Local.bindings (VariableChange.setGlobal counter _).locally _).bind
      intro _
      apply (local_block parts ss).bind
      intro flow
      cases flow with
      | normal => exact ih _
      | returned v => exact .pure _
    · exact .pure Flow.normal

theorem local_loopBound (e : Expr) (which : String) :
    (loopBound ev e which).Local List.length := by
  apply (parts.expr e).length.bind
  intro v
  cases v with
  | number x => exact .pure _
  | _ => exact .failAt _ _

theorem local_countLoop (rounds : Nat) (counter : String) (a b : Expr) (ss : List Stmt) :
    (countLoop ev rounds counter a b ss).Local List.length := by
  refine (local_loopBound parts a _).bind fun x => (local_loopBound parts b _).bind fun y => ?_
  refine (Exec.Local.bindings (VariableChange.setGlobal counter _).locally _).bind fun _ => ?_
  refine (local_countRounds parts counter y ss rounds x).afterwards (fun callers st => ?_)
    fun _ => rfl
  exact congrArg (fun env => { st with env }) (st.env.unsetGlobal_withCallers callers counter)

theorem local_joinAll (ss : List Stmt) (fault : Option Fault) (value : Option Value) :
    (joinAll ev fault value ss).Local List.length := by
  induction ss generalizing fault value with
  | nil =>
    refine ⟨fun callers st => ?_, fun {st st'} ends => ?_⟩
    · cases fault <;> cases value <;> rfl
    · cases fault <;> cases value <;> cases ends <;> rfl
  | cons s ss ih =>
    refine ⟨fun callers st => ?_, fun {st st'} ends => ?_⟩
    · unfold joinAll
      rw [(parts.stmt s).callers]
      cases ev.stmt s st with
      | ok flow mid => cases flow <;> exact (ih _ _).callers callers mid
      | failed f mid => exact (ih _ _).callers callers mid
      | broken => rfl
    · unfold joinAll at ends
      have first := @(parts.stmt s).keeps st
      cases h : ev.stmt s st with
      | ok flow mid =>
        rw [h] at ends first
        cases flow <;> exact ((ih _ _).keeps ends).trans (first rfl)
      | failed f mid =>
        rw [h] at ends first
        exact ((ih _ _).keeps ends).trans (first rfl)
      | broken =>
        rw [h] at ends
        cases ends

theorem local_runText (source : String) : (runText ev source).Local List.length := by
  unfold runText
  split
  · refine ⟨fun _ _ => rfl, ?_⟩
    rintro st _ ⟨⟩
    rfl
  · exact (local_block parts _).bind fun _ => .pure _

theorem local_connect (span : Span) (name : String) :
    (connect host ev span name).Local List.length := by
  unfold connect
  split
  · exact .failAt _ _
  refine .get_bind (fun _ _ => rfl) fun st => ?_
  dsimp only
  split
  · exact .failAt _ _
  refine (Exec.Local.within _ (local_readFile _ _)).bind fun source => ?_
  have text := (local_runText parts source).withFile (host.resolve st.includes name)
  refine ⟨fun callers mid => ?_, fun {mid last} ends => ?_⟩
  · rw [text.callers]
    cases Exec.withFile _ (runText ev source) mid <;> rfl
  · have kept := @text.keeps mid
    cases h : Exec.withFile (host.resolve st.includes name) (runText ev source) mid <;>
      rw [h] at ends kept <;> cases ends <;> exact kept rfl

/-- A statement of any form. -/
theorem local_perform (rounds : Nat) (span : Span) (form : StmtForm) :
    (perform host ev rounds span form).Local List.length := by
  have value (e : Expr) : (ev.expr e).Local List.length := (parts.expr e).length
  cases form with
  | declare name e immutable =>
    exact (value e).bind fun v =>
      (Exec.Local.bindings (VariableChange.declare name v immutable).locally _).bind fun _ =>
        .pure _
  | assign name e =>
    exact (Exec.Local.bindings (VariableChange.check name).locally _).bind fun _ =>
      (value e).bind fun v =>
        (Exec.Local.bindings (VariableChange.assign name v).locally _).bind fun _ => .pure _
  | print channel e =>
    exact (value e).bind fun _ => (local_print _ _).bind fun _ => .pure _
  | branch e ss other =>
    apply (local_holds parts e).length.bind
    intro b
    cases b with
    | true => exact local_block parts ss
    | false => exact local_block parts _
  | loop counter a b ss => exact local_countLoop parts rounds counter a b ss
  | «while» e ss => exact local_whileLoop parts e ss rounds
  | function name params ss =>
    exact (Exec.Local.bindings (defineFunction_locally _) _).bind fun _ => .pure _
  | «return» e =>
    cases e with
    | none => exact .pure _
    | some e => exact (value e).bind fun _ => .pure _
  | deleteVariable name =>
    exact (Exec.Local.bindings (VariableChange.delete name).locally _).bind fun _ => .pure _
  | deleteFunction name =>
    exact (Exec.Local.bindings (deleteFunction_locally name) _).bind fun _ => .pure _
  | connect name => exact local_connect parts span name
  | async ss => exact local_joinAll parts ss none none
  | value e => exact (value e).bind fun _ => .pure _

end

/-! ## Programs -/

theorem local_evaluator (host : Host) (fuel : Nat) : (evaluator host fuel).Local := by
  induction fuel with
  | zero => exact ⟨fun _ => .stop _, fun _ => .stop _⟩
  | succ fuel ih =>
    refine ⟨fun e => ?_, fun s => ?_⟩
    · obtain ⟨span, form⟩ := e
      exact .within span (local_valueOf ih form)
    · obtain ⟨span, form⟩ := s
      exact .within span (local_perform ih fuel span form)

end BraceScript
