-- Two runs side by side. They stay in step as long as a relation between their
-- states is kept: it has to hold the two together in all that a program can
-- see, and each change of a state has to keep it. The two programs may differ
-- in where they stand, and so may the functions of the two states.
import BraceScript.Proofs.Moved
import BraceScript.Proofs.Run.Outcomes
import BraceScript.Run.Program

namespace BraceScript

variable {α β : Type}

/-! ## Outcomes in step -/

/-- A fault without its place. -/
def Fault.placeless (f : Fault) : Fault := { f with span := none }

theorem Fault.placeless_within (f : Fault) (span : Span) :
    (f.within span).placeless = f.placeless := by
  unfold Fault.within Fault.placeless
  split <;> rfl

theorem Fault.placeless_connecting {f f' : Fault} (h : f.placeless = f'.placeless)
    (origin path : String) :
    (f.connecting origin path).placeless = (f'.connecting origin path).placeless := by
  obtain ⟨cause, span, home, notes⟩ := f
  obtain ⟨cause', span', home', notes'⟩ := f'
  simp only [Fault.placeless, Fault.mk.injEq, true_and] at h
  obtain ⟨rfl, rfl, rfl⟩ := h
  rfl

/-- The same value, or faults that differ in nothing but their places, and related states. -/
inductive Outcome.InStep (R : State → State → Prop) : Outcome α → Outcome α → Prop where
  | ok {v st st'} : R st st' → InStep R (.ok v st) (.ok v st')
  | failed {f f' st st'} : f.placeless = f'.placeless → R st st' →
    InStep R (.failed f st) (.failed f' st')
  | broken {reason} : InStep R (.broken reason) (.broken reason)

/-- From related states, two steps come to outcomes in step. -/
def Exec.InStep (R : State → State → Prop) (x x' : Exec α) : Prop :=
  ∀ st st', R st st' → (x st).InStep R (x' st')

namespace Exec.InStep

variable {R : State → State → Prop}

theorem pure (v : α) : (Pure.pure v : Exec α).InStep R (Pure.pure v) :=
  fun _ _ related => .ok related

theorem fail (cause : Fault.Cause) : (Exec.fail cause : Exec α).InStep R (Exec.fail cause) :=
  fun _ _ related => .failed rfl related

theorem failAt (span span' : Span) (cause : Fault.Cause) :
    (Exec.failAt span cause : Exec α).InStep R (Exec.failAt span' cause) :=
  fun _ _ related => .failed rfl related

theorem stop (reason : Break) : (Exec.stop reason : Exec α).InStep R (Exec.stop reason) :=
  fun _ _ _ => .broken

theorem ofExcept (r : Except Fault.Cause α) : (Exec.ofExcept r).InStep R (Exec.ofExcept r) := by
  cases r with
  | ok v => exact pure v
  | error cause => exact fail cause

theorem bind {x x' : Exec α} {f f' : α → Exec β} (hx : x.InStep R x')
    (hf : ∀ v, (f v).InStep R (f' v)) : (x >>= f).InStep R (x' >>= f') := by
  intro st st' related
  have both := hx st st' related
  rw [Exec.bind_eq_andThen, Exec.bind_eq_andThen]
  generalize x st = o, x' st' = o' at both
  cases both with
  | ok related => exact hf _ _ _ related
  | failed same related => exact .failed same related
  | broken => exact .broken

theorem get_bind {f f' : State → Exec α}
    (hf : ∀ st st', R st st' → (f st).InStep R (f' st')) :
    (Exec.get >>= f).InStep R (Exec.get >>= f') :=
  fun st st' related => hf st st' related st st' related

theorem modify {f f' : State → State} (kept : ∀ st st', R st st' → R (f st) (f' st')) :
    (Exec.modify f).InStep R (Exec.modify f') :=
  fun st st' related => .ok (kept st st' related)

theorem within {x x' : Exec α} (span span' : Span) (hx : x.InStep R x') :
    (Exec.within span x).InStep R (Exec.within span' x') := by
  intro st st' related
  have both := hx st st' related
  rw [Exec.within_apply, Exec.within_apply]
  generalize x st = o, x' st' = o' at both
  cases both with
  | ok related => exact .ok related
  | failed same related =>
    exact .failed (by rw [Fault.placeless_within, Fault.placeless_within, same]) related
  | broken => exact .broken

end Exec.InStep

theorem Outcome.InStep.change {R S : State → State → Prop} {o o' : Outcome α} {f : State → State}
    (h : o.InStep R o') (kept : ∀ st st', R st st' → S (f st) (f st')) :
    (o.change f).InStep S (o'.change f) := by
  cases h with
  | ok related => exact .ok (kept _ _ related)
  | failed same related => exact .failed same (kept _ _ related)
  | broken => exact .broken

theorem Outcome.InStep.void {R : State → State → Prop} {o o' : Outcome α} (h : o.InStep R o') :
    o.void.InStep R o'.void := by
  cases h with
  | ok related => exact .ok related
  | failed same related => exact .failed same related
  | broken => exact .broken

/-! ## Relations that are kept -/

/-- A function without the places of its body. -/
def Function.bare (f : Function) : Function := { f with body := f.body.map Stmt.bare }

/-- The changes of variables that a program can make. -/
inductive VariableChange : (Environment → Except Refusal Environment) → Prop where
  | declare (name value immutable) : VariableChange (·.declare name value immutable)
  | check (name) : VariableChange fun env => (env.checkAssignable name).map fun _ => env
  | assign (name value) : VariableChange (·.assign name value)
  | setGlobal (name value) : VariableChange (·.setGlobal name value)
  | delete (name) : VariableChange (·.deleteVariable name)

/-- States that are related look the same to a program, and stay related when the same is done
to both of them. The number says how many calls deep the two runs are. -/
structure Lockstep (host : Host) (R : Nat → State → State → Prop) : Prop where
  heap {n st st'} : R n st st' → st.heap = st'.heap
  lookup {n st st'} (name : String) : R n st st' → st.env.lookup name = st'.env.lookup name
  function {n st st'} (name : String) : R n st st' →
    (st.env.function? name).map Function.bare = (st'.env.function? name).map Function.bare
  resolve {n st st'} (name : String) : R n st st' →
    host.resolve st.includes name = host.resolve st'.includes name
  contains {n st st'} (path : Path) : R n st st' →
    st.includes.contains path = st'.includes.contains path
  setHeap {n st st'} (heap : Heap) : R n st st' → R n { st with heap } { st' with heap }
  print {n st st'} (event : Event) : R n st st' →
    R n { st with output := st.output.push event } { st' with output := st'.output.push event }
  changeVariable {n change} (cause : Refusal → Fault.Cause) : VariableChange change →
    (Exec.bindings change cause).InStep (R n) (Exec.bindings change cause)
  unsetGlobal {n st st'} (name : String) : R n st st' →
    R n { st with env := st.env.unsetGlobal name } { st' with env := st'.env.unsetGlobal name }
  defineFunction {n f f'} (cause : Refusal → Fault.Cause) : f.bare = f'.bare →
    (Exec.bindings (·.defineFunction f) cause).InStep (R n)
      (Exec.bindings (·.defineFunction f') cause)
  deleteFunction {n} (name : String) (cause : Refusal → Fault.Cause) :
    (Exec.bindings (·.deleteFunction name) cause).InStep (R n)
      (Exec.bindings (·.deleteFunction name) cause)
  enterCall {n st st'} (frame : Scope) : R n st st' →
    R (n + 1) { st with env := st.env.pushFrame frame } { st' with env := st'.env.pushFrame frame }
  leaveCall {n st st'} : R (n + 1) st st' →
    R n { st with env := st.env.popFrame } { st' with env := st'.env.popFrame }
  enterFile {n st st'} (path : Path) : R n st st' →
    R n { st with includes := path :: st.includes } { st' with includes := path :: st'.includes }
  leaveFile {n st st'} : R n st st' →
    R n { st with includes := st.includes.tail } { st' with includes := st'.includes.tail }

/-- The parts of programs that differ in nothing but their places go in step, at any depth. -/
structure Evaluator.InStep (R : Nat → State → State → Prop) (ev ev' : Evaluator) : Prop where
  expr {n e e'} : e.bare = e'.bare → (ev.expr e).InStep (R n) (ev'.expr e')
  stmt {n s s'} : s.bare = s'.bare → (ev.stmt s).InStep (R n) (ev'.stmt s')

/-! ## Expressions -/

theorem inStep_readFile {R : State → State → Prop} {host : Host} (name : String) (path : Path) :
    (host.readFile name path).InStep R (host.readFile name path) := by
  unfold Host.readFile
  split
  · exact .pure _
  · exact .fail _
  · exact .stop _

variable {host : Host} {R : Nat → State → State → Prop} {ev ev' : Evaluator} {n : Nat}

section

variable (both : ev.InStep R ev')
include both

theorem inStep_all {es es' : List Expr} (h : es.map Expr.bare = es'.map Expr.bare) :
    (ev.all es).InStep (R n) (ev'.all es') := by
  induction es generalizing es' with
  | nil =>
    obtain rfl : es' = [] := by simpa using h.symm
    exact .pure []
  | cons e es ih =>
    obtain ⟨e', es', rfl, he, hes⟩ := List.map_eq_cons_iff.1 h.symm
    exact (both.expr he.symm).bind fun v => (ih hes.symm).bind fun vs => .pure _

theorem inStep_block {ss ss' : List Stmt} (h : ss.map Stmt.bare = ss'.map Stmt.bare) :
    (ev.block ss).InStep (R n) (ev'.block ss') := by
  induction ss generalizing ss' with
  | nil =>
    obtain rfl : ss' = [] := by simpa using h.symm
    exact .pure Flow.normal
  | cons s ss ih =>
    obtain ⟨s', ss', rfl, hs, hss⟩ := List.map_eq_cons_iff.1 h.symm
    apply (both.stmt hs.symm).bind
    intro flow
    cases flow with
    | normal => exact ih hss.symm
    | returned v => exact .pure _

theorem inStep_loopBound {e e' : Expr} (which : String) (h : e.bare = e'.bare) :
    (loopBound ev e which).InStep (R n) (loopBound ev' e' which) := by
  apply (both.expr h).bind
  intro v
  cases v with
  | number x => exact .pure _
  | _ => exact .failAt _ _ _

theorem inStep_joinAll {ss ss' : List Stmt} (hss : ss.map Stmt.bare = ss'.map Stmt.bare)
    {fault fault' : Option Fault} (hfault : fault.map Fault.placeless = fault'.map Fault.placeless)
    (value : Option Value) :
    (joinAll ev fault value ss).InStep (R n) (joinAll ev' fault' value ss') := by
  induction ss generalizing ss' fault fault' value with
  | nil =>
    obtain rfl : ss' = [] := by simpa using hss.symm
    intro st st' related
    rcases fault with _ | f <;> rcases fault' with _ | f' <;>
      simp only [Option.map_none, Option.map_some, reduceCtorEq, Option.some.injEq] at hfault
    · cases value <;> exact .ok related
    · exact .failed hfault related
  | cons s ss ih =>
    obtain ⟨s', ss', rfl, hs, hss⟩ := List.map_eq_cons_iff.1 hss.symm
    intro st st' related
    have first := both.stmt hs.symm st st' related
    unfold joinAll
    generalize ev.stmt s st = o, ev'.stmt s' st' = o' at first
    cases first with
    | @ok flow _ _ related =>
      cases flow with
      | normal => exact ih hss.symm hfault value _ _ related
      | returned v => exact ih hss.symm hfault _ _ _ related
    | failed same related =>
      refine ih hss.symm ?_ value _ _ related
      rcases fault with _ | f <;> rcases fault' with _ | f' <;> simp_all
    | broken => exact .broken

theorem inStep_runText (source : String) :
    (runText ev source).InStep (R n) (runText ev' source) := by
  unfold runText
  split
  · intro _ _ related
    exact .failed rfl related
  · exact (inStep_block both rfl).bind fun _ => .pure _

end

variable (step : Lockstep host R) (both : ev.InStep R ev')
include step

theorem inStep_namedArray (name : String) :
    (namedArray name).InStep (R n) (namedArray name) := by
  refine .get_bind fun st st' related => ?_
  rw [step.lookup name related]
  split
  · exact .pure _
  · exact .fail _
  · exact .fail _

theorem inStep_elementAt (array : String) (handle : Nat) (index : Value) :
    (elementAt array handle index).InStep (R n) (elementAt array handle index) := by
  refine .get_bind fun st st' related => ?_
  dsimp only
  rw [step.heap related]
  exact (Exec.InStep.ofExcept _).bind fun _ => .pure _

theorem inStep_pushElement (handle : Nat) (value : Value) :
    (pushElement handle value).InStep (R n) (pushElement handle value) := by
  refine (Exec.InStep.modify fun st st' related => ?_).bind fun _ => ?_
  · rw [step.heap related]
    exact step.setHeap _ related
  · refine .get_bind fun st st' related => ?_
    rw [step.heap related]
    exact .pure _

theorem inStep_removeElement (array : String) (handle : Nat) (key : Value) :
    (removeElement array handle key).InStep (R n) (removeElement array handle key) := by
  refine .get_bind fun st st' related => ?_
  dsimp only
  rw [step.heap related]
  apply (Exec.InStep.ofExcept _).bind
  intro place
  refine (Exec.InStep.modify fun st st' related => ?_).bind fun _ => .pure _
  rw [step.heap related]
  exact step.setHeap _ related

theorem inStep_newArray (items : List Value) :
    (Exec.newArray items).InStep (R n) (Exec.newArray items) := by
  intro st st' related
  unfold Exec.newArray
  rw [step.heap related]
  exact .ok (step.setHeap _ related)

theorem inStep_print (channel : Channel) (value : Value) :
    (Exec.print channel value).InStep (R n) (Exec.print channel value) := by
  refine .modify fun st st' related => ?_
  have shown : st.heap.shown value = st'.heap.shown value := by rw [step.heap related]
  rw [shown]
  exact step.print _ related

theorem inStep_parseJson (v : Value) : (parseJson v).InStep (R n) (parseJson v) := by
  cases v with
  | text text =>
    intro st st' related
    unfold parseJson
    dsimp only
    rw [step.heap related]
    split
    · exact .ok (step.setHeap _ related)
    · exact .failed rfl related
  | _ => exact .fail _

theorem inStep_textual (function : TextFunction) (v : Value) :
    (textual function v).InStep (R n) (textual function v) := by
  intro st st' related
  unfold textual
  rw [step.heap related]
  split
  · exact .ok (step.setHeap _ related)
  · exact .failed rfl related

theorem inStep_withFrame (frame : Scope) {x x' : Exec α} (hx : x.InStep (R (n + 1)) x') :
    (Exec.withFrame frame x).InStep (R n) (Exec.withFrame frame x') := by
  intro st st' related
  rw [Exec.withFrame_apply, Exec.withFrame_apply]
  exact (hx _ _ (step.enterCall frame related)).change fun _ _ => step.leaveCall

include both

theorem inStep_holds {e e' : Expr} (h : e.bare = e'.bare) :
    (ev.holds e).InStep (R n) (ev'.holds e') := by
  refine (both.expr h).bind fun v => .get_bind fun st st' related => ?_
  rw [step.heap related]
  exact .pure _

theorem inStep_binary (op : BinaryOperator) {l l' r r' : Expr} (hl : l.bare = l'.bare)
    (hr : r.bare = r'.bare) : (binary ev op l r).InStep (R n) (binary ev' op l' r') := by
  have left := inStep_holds step both (n := n) hl
  have right := inStep_holds step both (n := n) hr
  unfold binary
  split
  · apply left.bind
    intro b
    cases b with
    | true => exact right.bind fun _ => .pure _
    | false => exact .pure _
  · apply left.bind
    intro b
    cases b with
    | true => exact .pure _
    | false => exact right.bind fun _ => .pure _
  · refine (both.expr hl).bind fun a => (both.expr hr).bind fun b => ?_
    refine .get_bind fun st st' related => ?_
    rw [step.heap related]
    exact .ofExcept _

theorem inStep_call (name : String) {es es' : List Expr}
    (h : es.map Expr.bare = es'.map Expr.bare) :
    (call ev name es).InStep (R n) (call ev' name es') := by
  refine .get_bind fun st st' related => ?_
  have same := step.function name related
  have count : es.length = es'.length := by simpa using congrArg List.length h
  generalize st.env.function? name = f, st'.env.function? name = f' at same
  rcases f with _ | f <;> rcases f' with _ | f' <;> simp only [Option.map_none, Option.map_some,
    reduceCtorEq, Option.some.injEq, Function.bare, Function.mk.injEq] at same
  · exact .fail _
  obtain ⟨-, params, body⟩ := same
  dsimp only
  rw [params, count]
  split
  · exact .fail _
  refine (inStep_all both h).bind fun values => (Exec.InStep.ofExcept _).bind fun frame => ?_
  apply (inStep_withFrame step frame (inStep_block both body)).bind
  intro flow
  cases flow <;> exact .pure _

theorem inStep_readText {path path' : Expr} (h : path.bare = path'.bare) :
    (readText host ev path).InStep (R n) (readText host ev' path') := by
  apply (both.expr h).bind
  intro v
  cases v with
  | text name =>
    refine .get_bind fun st st' related => ?_
    rw [step.resolve name related]
    exact (inStep_readFile _ _).bind fun _ => .pure _
  | _ => exact .fail _

/-- Two forms that are alike have values in step. -/
theorem inStep_valueOf {form form' : ExprForm} (h : form.Alike form') :
    (valueOf host ev form).InStep (R n) (valueOf host ev' form') := by
  cases h with
  | number | text | boolean | void => exact .pure _
  | @name s =>
    refine .get_bind fun st st' related => ?_
    rw [step.lookup s related]
    split
    · exact .pure _
    · exact .fail _
  | array hes => exact (inStep_all both hes).bind fun _ => inStep_newArray step _
  | binary hl hr => exact inStep_binary step both _ hl hr
  | unary he =>
    refine (both.expr he).bind fun v => .get_bind fun st st' related => ?_
    rw [step.heap related]
    exact .ofExcept _
  | call hes => exact inStep_call step both _ hes
  | index he =>
    exact (inStep_namedArray step _).bind fun _ => (both.expr he).bind fun _ =>
      inStep_elementAt step _ _ _
  | read he => exact inStep_readText step both he
  | append he =>
    exact (inStep_namedArray step _).bind fun _ => (both.expr he).bind fun _ =>
      inStep_pushElement step _ _
  | remove he =>
    exact (inStep_namedArray step _).bind fun _ => (both.expr he).bind fun _ =>
      inStep_removeElement step _ _ _
  | size =>
    refine (inStep_namedArray step _).bind fun _ => .get_bind fun st st' related => ?_
    rw [step.heap related]
    exact .pure _
  | toJson he =>
    refine (both.expr he).bind fun v => .get_bind fun st st' related => ?_
    rw [step.heap related]
    split
    · exact .pure _
    · exact .fail _
  | parseJson he => exact (both.expr he).bind fun _ => inStep_parseJson step _
  | math he => exact (both.expr he).bind fun _ => .ofExcept _
  | textual he => exact (both.expr he).bind fun _ => inStep_textual step _ _

/-! ## Statements -/

theorem inStep_declare (name : String) {e e' : Expr} (immutable : Bool) (h : e.bare = e'.bare) :
    (declare ev name e immutable).InStep (R n) (declare ev' name e' immutable) :=
  (both.expr h).bind fun v =>
    (step.changeVariable _ (.declare name v immutable)).bind fun _ => .pure _

theorem inStep_assign (name : String) {e e' : Expr} (h : e.bare = e'.bare) :
    (assign ev name e).InStep (R n) (assign ev' name e') :=
  (step.changeVariable _ (.check name)).bind fun _ => (both.expr h).bind fun v =>
    (step.changeVariable _ (.assign name v)).bind fun _ => .pure _

theorem inStep_branch {e e' : Expr} {ss ss' : List Stmt} {other other' : Option (List Stmt)}
    (h : e.bare = e'.bare) (hss : ss.map Stmt.bare = ss'.map Stmt.bare)
    (hother : other.map (List.map Stmt.bare) = other'.map (List.map Stmt.bare)) :
    (branch ev e ss other).InStep (R n) (branch ev' e' ss' other') := by
  have otherwise : (other.getD []).map Stmt.bare = (other'.getD []).map Stmt.bare := by
    cases other <;> cases other' <;> simp_all
  apply (inStep_holds step both h).bind
  intro b
  cases b with
  | true => exact inStep_block both hss
  | false => exact inStep_block both otherwise

theorem inStep_whileLoop {e e' : Expr} {ss ss' : List Stmt} (h : e.bare = e'.bare)
    (hss : ss.map Stmt.bare = ss'.map Stmt.bare) (rounds : Nat) :
    (whileLoop ev e ss rounds).InStep (R n) (whileLoop ev' e' ss' rounds) := by
  induction rounds with
  | zero => exact .stop _
  | succ rounds ih =>
    apply (inStep_holds step both h).bind
    intro b
    cases b with
    | false => exact .pure Flow.normal
    | true =>
      apply (inStep_block both hss).bind
      intro flow
      cases flow with
      | normal => exact ih
      | returned v => exact .pure _

theorem inStep_countRounds (counter : String) (last : Float) {ss ss' : List Stmt}
    (hss : ss.map Stmt.bare = ss'.map Stmt.bare) (rounds : Nat) (x : Float) :
    (countRounds ev counter last ss rounds x).InStep (R n)
      (countRounds ev' counter last ss' rounds x) := by
  induction rounds generalizing x with
  | zero => exact .stop _
  | succ rounds ih =>
    unfold countRounds
    split
    · apply (step.changeVariable _ (.setGlobal counter _)).bind
      intro _
      apply (inStep_block both hss).bind
      intro flow
      cases flow with
      | normal => exact ih _
      | returned v => exact .pure _
    · exact .pure Flow.normal

theorem inStep_countLoop (rounds : Nat) (counter : String) {a a' b b' : Expr} {ss ss' : List Stmt}
    (ha : a.bare = a'.bare) (hb : b.bare = b'.bare) (hss : ss.map Stmt.bare = ss'.map Stmt.bare) :
    (countLoop ev rounds counter a b ss).InStep (R n)
      (countLoop ev' rounds counter a' b' ss') := by
  apply (inStep_loopBound both _ ha).bind
  intro x
  apply (inStep_loopBound both _ hb).bind
  intro y
  apply (step.changeVariable _ (.setGlobal counter _)).bind
  intro _ st st' related
  exact (inStep_countRounds step both counter y hss rounds x st st' related).change
    fun _ _ => step.unsetGlobal counter

theorem inStep_connect (span span' : Span) (name : String) :
    (connect host ev span name).InStep (R n) (connect host ev' span' name) := by
  unfold connect
  split
  · exact .failAt _ _ _
  refine .get_bind fun st st' related => ?_
  dsimp only
  rw [step.resolve name related, step.contains _ related]
  split
  · exact .failAt _ _ _
  refine (Exec.InStep.within _ _ (inStep_readFile _ _)).bind fun source mid mid' related => ?_
  have text := inStep_runText both source _ _
    (step.enterFile (host.resolve st'.includes name) related)
  rw [Exec.withFile_apply, Exec.withFile_apply]
  generalize runText ev source _ = o, runText ev' source _ = o' at text
  cases text with
  | ok related => exact .ok (step.leaveFile related)
  | failed same related =>
    exact .failed (Fault.placeless_connecting same _ _) (step.leaveFile related)
  | broken => exact .broken

/-- Two forms that are alike do the same. -/
theorem inStep_perform (rounds : Nat) (span span' : Span) {form form' : StmtForm}
    (h : form.Alike form') :
    (perform host ev rounds span form).InStep (R n) (perform host ev' rounds span' form') := by
  cases h with
  | declare he => exact inStep_declare step both _ _ he
  | assign he => exact inStep_assign step both _ he
  | print he =>
    exact (both.expr he).bind fun v => (inStep_print step _ v).bind fun _ => .pure _
  | branch he hss hother => exact inStep_branch step both he hss hother
  | loop ha hb hss => exact inStep_countLoop step both _ _ ha hb hss
  | «while» he hss => exact inStep_whileLoop step both he hss _
  | function hss =>
    refine (step.defineFunction _ ?_).bind fun _ => .pure _
    simp only [Function.bare, hss]
  | @«return» e e' he =>
    rcases e with _ | e <;> rcases e' with _ | e' <;>
      simp only [Option.map_none, Option.map_some, reduceCtorEq, Option.some.injEq] at he
    · exact .pure _
    · exact (both.expr he).bind fun _ => .pure _
  | deleteVariable => exact (step.changeVariable _ (.delete _)).bind fun _ => .pure _
  | deleteFunction => exact (step.deleteFunction _ _).bind fun _ => .pure _
  | connect => exact inStep_connect step both _ _ _
  | async hss => exact inStep_joinAll both hss rfl none
  | value he => exact (both.expr he).bind fun _ => .pure _

omit both

/-! ## Programs -/

/-- Programs that differ in nothing but their places go in step. -/
theorem inStep_evaluator (fuel : Nat) :
    (evaluator host fuel).InStep R (evaluator host fuel) := by
  induction fuel with
  | zero => exact ⟨fun _ => .stop _, fun _ => .stop _⟩
  | succ fuel ih =>
    refine ⟨fun {n e e'} h => ?_, fun {n s s'} h => ?_⟩
    · obtain ⟨span, form⟩ := e
      obtain ⟨span', form'⟩ := e'
      have alike : form.bare = form'.bare := by
        simp only [Expr.bare, Expr.move_at, Expr.at.injEq] at h
        exact h.2
      exact .within _ _ (inStep_valueOf step ih (ExprForm.alike_of_bare alike))
    · obtain ⟨span, form⟩ := s
      obtain ⟨span', form'⟩ := s'
      have alike : form.bare = form'.bare := by
        simp only [Stmt.bare, Stmt.move_at, Stmt.at.injEq] at h
        exact h.2
      exact .within _ _ (inStep_perform step ih fuel _ _ (StmtForm.alike_of_bare alike))

end BraceScript
