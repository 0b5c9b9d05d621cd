-- Assignments that are refused. The target is looked at before the value is
-- evaluated, and once more when the value is there. What the value does in
-- between can take the target away, but only a global that the frame does not
-- hide, and it cannot bind that for good. So there is one way in which a
-- refused assignment leaves anything changed.
import BraceScript.Proofs.Run.Frames
import BraceScript.Proofs.Run.Reserved
import BraceScript.Proofs.Run.Threads
import Mathlib

namespace BraceScript

variable {α β : Type} {x : String}

/-! ## Globals that are not bound for good -/

/-- The global, if there is one of this name, is not bound for good. -/
def Environment.Unfixed (x : String) (e : Environment) : Prop :=
  ∀ b ∈ e.globals.find? x, b.immutable = false

namespace Environment.Unfixed

variable {e e' : Environment}

theorem isImmutable (h : e.Unfixed x) : e.globals.isImmutable x = false := by
  apply Bool.eq_false_iff.2
  intro fixed
  obtain ⟨b, found, immutable⟩ := Scope.isImmutable_iff.1 fixed
  rw [h b found] at immutable
  cases immutable

theorem of_isImmutable (h : e.globals.isImmutable x = false) : e.Unfixed x := by
  intro b found
  apply Bool.eq_false_iff.2
  intro immutable
  rw [Scope.isImmutable_iff.2 ⟨b, found, immutable⟩] at h
  cases h

/-- A call binds new variables in its own frame, so none of its operations binds a global for
good. -/
theorem changes {op : Operation} (h : e.Unfixed x) (inCall : 0 < e.depth) (c : op.Changes e e') :
    e'.Unfixed x := by
  have level : e.innermostLevel = .frame 0 := by
    obtain ⟨_, frames, _⟩ := e
    cases frames with
    | nil => simp [Environment.depth] at inCall
    | cons => rfl
  have after : e'.globals.find? x = _ := c.bindings .globals x
  intro b found
  rw [after] at found
  split at found
  · next here =>
    cases op with
    | declare => simp [Operation.target, level] at here
    | assign | setGlobal => cases found; rfl
    | check | deleteVariable | defineFunction | deleteFunction => cases found
  · exact h b found

theorem unsetGlobal {name : String} (h : e.Unfixed x) : (e.unsetGlobal name).Unfixed x := by
  intro b found
  rw [Environment.unsetGlobal, Option.mem_def, Scope.find?_without] at found
  split at found
  · cases found
  · exact h b found

end Environment.Unfixed

/-! ## Statements of a call -/

/-- As many calls are in progress as before, and if there are any then no global has been bound
for good. -/
def Outcome.FixesNoGlobal (x : String) (o : Outcome α) (st : State) : Prop :=
  ∀ st' ∈ o.state?, st'.env.depth = st.env.depth ∧
    (0 < st.env.depth → st.env.Unfixed x → st'.env.Unfixed x)

theorem Outcome.FixesNoGlobal.trans {o : Outcome α} {st mid : State}
    (h : o.FixesNoGlobal x mid) (depth : mid.env.depth = st.env.depth)
    (before : 0 < st.env.depth → st.env.Unfixed x → mid.env.Unfixed x) :
    o.FixesNoGlobal x st := by
  intro st' ends
  obtain ⟨depth', after⟩ := h st' ends
  refine ⟨depth'.trans depth, fun inCall unfixed => after ?_ (before inCall unfixed)⟩
  rwa [depth]

theorem Change.depth {home : Home} {st st' : State} (c : Change home st st') :
    st'.env.depth = st.env.depth := by
  cases c with
  | heap | print => rfl
  | declare h => exact (Operation.changes_declare h).depth
  | assign h => exact (Operation.changes_assign h).depth
  | setGlobal _ h => exact (Operation.changes_setGlobal h).depth
  | deleteVariable h => exact (Operation.changes_deleteVariable h).depth
  | defineFunction _ h => exact (Operation.changes_defineFunction h).depth
  | deleteFunction h => exact (Operation.changes_deleteFunction h).depth

theorem Change.unfixed {home : Home} {st st' : State} (c : Change home st st')
    (inCall : 0 < st.env.depth) (h : st.env.Unfixed x) : st'.env.Unfixed x := by
  cases c with
  | heap | print => exact h
  | declare hd => exact h.changes inCall (Operation.changes_declare hd)
  | assign ha => exact h.changes inCall (Operation.changes_assign ha)
  | setGlobal _ hs => exact h.changes inCall (Operation.changes_setGlobal hs)
  | deleteVariable hd => exact h.changes inCall (Operation.changes_deleteVariable hd)
  | defineFunction _ hd => exact h.changes inCall (Operation.changes_defineFunction hd)
  | deleteFunction hd => exact h.changes inCall (Operation.changes_deleteFunction hd)

section

variable {host : Host} {ev : Evaluator} {home : Home} {st : State} {vs : List Visit}
  {o : Outcome Unit}

theorem Threads.fixesNoGlobal (each : ∀ n st, (ev.run n st).FixesNoGlobal x st)
    (h : Threads host ev home st vs o) : o.FixesNoGlobal x st := by
  induction h with
  | done | raise =>
    rintro st' ⟨⟩
    exact ⟨rfl, fun _ unfixed => unfixed⟩
  | change c =>
    rintro st' ⟨⟩
    exact ⟨c.depth, c.unfixed⟩
  | stop => rintro st' ⟨⟩
  | visit => exact each _ _
  | andThen _ _ ih ih' =>
    obtain ⟨depth, unfixed⟩ := ih _ rfl
    exact ih'.trans depth unfixed
  | joined _ hrun _ ih =>
    obtain ⟨depth, unfixed⟩ := each _ _ _ (by rw [hrun]; rfl)
    intro st' ends
    exact ih.trans depth unfixed st' (by simpa using ends)
  | call _ _ _ _ ih ih' =>
    obtain ⟨depth, unfixed⟩ := ih _ rfl
    intro st' ends
    rw [Outcome.state?_change] at ends
    obtain ⟨last, hlast, rfl⟩ := Option.map_eq_some_iff.1 ends
    obtain ⟨depth', unfixed'⟩ := ih' last hlast
    refine ⟨?_, fun inCall before => unfixed' (by simp) (unfixed inCall before)⟩
    rw [Environment.depth_pushFrame] at depth'
    rw [← depth, Environment.depth, Environment.popFrame, List.length_tail]
    exact Nat.sub_eq_of_eq_add depth'
  | file _ _ _ _ _ ih =>
    intro st' ends
    rw [Outcome.state?_refault, Outcome.state?_change] at ends
    obtain ⟨last, hlast, rfl⟩ := Option.map_eq_some_iff.1 ends
    exact ih last hlast
  | loop hset _ ih =>
    intro st' ends
    rw [Outcome.state?_change] at ends
    obtain ⟨last, hlast, rfl⟩ := Option.map_eq_some_iff.1 ends
    have set := Operation.changes_setGlobal hset
    have rounds := Outcome.FixesNoGlobal.trans ih set.depth
      fun inCall before => before.changes inCall set
    obtain ⟨depth, unfixed⟩ := rounds last hlast
    exact ⟨depth, fun inCall before => (unfixed inCall before).unsetGlobal⟩

end

/-- Whatever is run in a call, it binds no global for good. -/
theorem fixesNoGlobal_run (x : String) (host : Host) (fuel : Nat) (n : Node) (st : State) :
    ((evaluator host fuel).run n st).FixesNoGlobal x st := by
  induction fuel generalizing n st with
  | zero =>
    cases n with
    | text source =>
      cases hp : parse source <;>
        simp [Outcome.FixesNoGlobal, Evaluator.run, hp, Outcome.state?]
    | _ => simp [Outcome.FixesNoGlobal, Evaluator.run, evaluator, evalExpr, runStmt,
        Exec.bind_apply, Exec.stop, Outcome.state?]
  | succ fuel ih =>
    obtain ⟨o, threads, hrun⟩ := threads_run host fuel n st
    unfold Outcome.FixesNoGlobal
    rw [hrun, Outcome.state?_refault]
    exact threads.fixesNoGlobal ih

theorem fixesNoGlobal_block (x : String) (host : Host) (fuel : Nat) (ss : List Stmt) (st : State) :
    ((evaluator host fuel).block ss st).FixesNoGlobal x st := by
  have threads : Threads host (evaluator host fuel) (.body ss) st _ _ :=
    threads_block fun s hs => List.mem_map_of_mem hs
  have kept := threads.fixesNoGlobal (fixesNoGlobal_run x host fuel)
  rwa [Outcome.FixesNoGlobal, Outcome.state?_void] at kept

/-! ## Expressions -/

/-- However the step ends, what is true of the bindings before is true of them afterwards. -/
def Exec.Leaves (P : Environment → Prop) (x : Exec α) : Prop :=
  ∀ st, P st.env → ∀ st' ∈ (x st).state?, P st'.env

variable {P : Environment → Prop}

namespace Exec.Leaves

/-- The step does not touch the bindings. -/
theorem same {x : Exec α} (h : ∀ st, ∀ st' ∈ (x st).state?, st'.env = st.env) : x.Leaves P := by
  intro st before st' ends
  rw [h st st' ends]
  exact before

theorem pure (v : α) : (Pure.pure v : Exec α).Leaves P := by
  rintro st before st' ⟨⟩
  exact before

theorem fail (cause : Fault.Cause) : (Exec.fail cause : Exec α).Leaves P := by
  rintro st before st' ⟨⟩
  exact before

theorem stop (reason : Break) : (Exec.stop reason : Exec α).Leaves P := by
  rintro st before st' ⟨⟩

theorem ofExcept (r : Except Fault.Cause α) : (Exec.ofExcept r).Leaves P := by
  cases r with
  | ok v => exact pure v
  | error cause => exact fail cause

theorem bind {x : Exec α} {f : α → Exec β} (hx : x.Leaves P) (hf : ∀ v, (f v).Leaves P) :
    (x >>= f).Leaves P := by
  intro st before st' ends
  rw [Exec.bind_eq_andThen] at ends
  cases h : x st with
  | ok v mid =>
    rw [h] at ends
    exact hf v mid (hx st before mid (by rw [h]; rfl)) st' ends
  | failed fault mid =>
    rw [h] at ends
    exact hx st before st' (by rw [h]; exact ends)
  | broken reason =>
    rw [h] at ends
    cases ends

theorem get_bind {f : State → Exec α} (hf : ∀ st, (f st).Leaves P) :
    (Exec.get >>= f).Leaves P :=
  fun st => hf st st

theorem within {x : Exec α} (span : Span) (hx : x.Leaves P) : (Exec.within span x).Leaves P := by
  intro st before st' ends
  rw [Exec.within_apply, Outcome.state?_refault] at ends
  exact hx st before st' ends

end Exec.Leaves

section

variable {host : Host} {ev : Evaluator}

theorem leaves_readFile (name : String) (path : Path) : (host.readFile name path).Leaves P := by
  unfold Host.readFile
  split
  · exact .pure _
  · exact .fail _
  · exact .stop _

theorem leaves_namedArray (name : String) : (namedArray name).Leaves P := by
  refine .get_bind fun st => ?_
  split
  · exact .pure _
  · exact .fail _
  · exact .fail _

theorem leaves_elementAt (array : String) (handle : Nat) (index : Value) :
    (elementAt array handle index).Leaves P :=
  .get_bind fun _ => (Exec.Leaves.ofExcept _).bind fun _ => .pure _

theorem leaves_pushElement (handle : Nat) (value : Value) :
    (pushElement handle value).Leaves P := by
  refine .same ?_
  rintro st st' ⟨⟩
  rfl

theorem leaves_removeElement (array : String) (handle : Nat) (key : Value) :
    (removeElement array handle key).Leaves P := by
  refine .get_bind fun st => (Exec.Leaves.ofExcept _).bind fun place => .same ?_
  rintro st st' ⟨⟩
  rfl

theorem leaves_newArray (items : List Value) : (Exec.newArray items).Leaves P := by
  refine .same ?_
  rintro st st' ⟨⟩
  rfl

theorem leaves_parseJson (v : Value) : (parseJson v).Leaves P := by
  cases v with
  | text text =>
    refine .same fun st st' ends => ?_
    unfold parseJson at ends
    dsimp only at ends
    cases h : st.heap.ofJson text <;> rw [h] at ends <;> cases ends <;> rfl
  | _ => exact .fail _

theorem leaves_textual (function : TextFunction) (v : Value) : (textual function v).Leaves P := by
  refine .same fun st st' ends => ?_
  unfold textual at ends
  cases h : function.apply st.heap v <;> rw [h] at ends <;> cases ends <;> rfl

variable (parts : ∀ e, (ev.expr e).Leaves P)
include parts

theorem leaves_all (es : List Expr) : (ev.all es).Leaves P := by
  induction es with
  | nil => exact .pure _
  | cons e es ih => exact (parts e).bind fun _ => ih.bind fun _ => .pure _

theorem leaves_holds (e : Expr) : (ev.holds e).Leaves P :=
  (parts e).bind fun _ => .get_bind fun _ => .pure _

theorem leaves_binary (op : BinaryOperator) (l r : Expr) : (binary ev op l r).Leaves P := by
  unfold binary
  split
  · refine (leaves_holds parts l).bind fun b => ?_
    cases b with
    | true => exact (leaves_holds parts r).bind fun _ => .pure _
    | false => exact .pure _
  · refine (leaves_holds parts l).bind fun b => ?_
    cases b with
    | true => exact .pure _
    | false => exact (leaves_holds parts r).bind fun _ => .pure _
  · exact (parts l).bind fun _ => (parts r).bind fun _ => .get_bind fun _ => .ofExcept _

theorem leaves_readText (path : Expr) : (readText host ev path).Leaves P := by
  refine (parts path).bind fun v => ?_
  cases v with
  | text name => exact .get_bind fun _ => (leaves_readFile _ _).bind fun _ => .pure _
  | _ => exact .fail _

variable (calls : ∀ f values, (enterFunction ev f values).Leaves P)
include calls

theorem leaves_call (name : String) (es : List Expr) : (call ev name es).Leaves P := by
  intro st before st' ends
  rw [call_eq] at ends
  cases hf : st.env.function? name with
  | none =>
    rw [hf] at ends
    exact Exec.Leaves.fail _ st before st' ends
  | some f =>
    rw [hf] at ends
    dsimp only at ends
    split at ends
    · exact Exec.Leaves.fail _ st before st' ends
    · exact (leaves_all parts es).bind (calls f) st before st' ends

/-- An expression changes the bindings through the expressions in it and through calls. -/
theorem leaves_valueOf (form : ExprForm) : (valueOf host ev form).Leaves P := by
  cases form with
  | number | text | boolean | void => exact .pure _
  | name name =>
    refine .get_bind fun st => ?_
    split
    · exact .pure _
    · exact .fail _
  | array items => exact (leaves_all parts items).bind fun _ => leaves_newArray _
  | binary op l r => exact leaves_binary parts op l r
  | unary op e => exact (parts e).bind fun _ => .get_bind fun _ => .ofExcept _
  | call name es => exact leaves_call parts calls name es
  | index array e =>
    exact (leaves_namedArray _).bind fun _ => (parts e).bind fun _ => leaves_elementAt _ _ _
  | read e => exact leaves_readText parts e
  | append array e =>
    exact (leaves_namedArray _).bind fun _ => (parts e).bind fun _ => leaves_pushElement _ _
  | remove array e =>
    exact (leaves_namedArray _).bind fun _ => (parts e).bind fun _ => leaves_removeElement _ _ _
  | size array => exact (leaves_namedArray _).bind fun _ => .get_bind fun _ => .pure _
  | toJson e =>
    refine (parts e).bind fun v => .get_bind fun st => ?_
    split
    · exact .pure _
    · exact .fail _
  | parseJson e => exact (parts e).bind fun _ => leaves_parseJson _
  | math f e => exact (parts e).bind fun _ => .ofExcept _
  | textual f e => exact (parts e).bind fun _ => leaves_textual _ _

end

/-- The body of a function binds no global for good. -/
theorem unfixed_enterFunction (x : String) (host : Host) (fuel : Nat) (f : Function)
    (values : List Value) :
    (enterFunction (evaluator host fuel) f values).Leaves (Environment.Unfixed x) := by
  refine (Exec.Leaves.ofExcept _).bind fun frame =>
    .bind (fun st before st' ends => ?_) fun flow => ?_
  · rw [Exec.withFrame_apply, Outcome.state?_change] at ends
    obtain ⟨last, hlast, rfl⟩ := Option.map_eq_some_iff.1 ends
    exact (fixesNoGlobal_block x host fuel f.body _ last hlast).2 (by simp) before
  · cases flow <;> exact .pure _

/-- So no expression binds a global for good, wherever it stands. -/
theorem unfixed_evalExpr (x : String) (host : Host) (fuel : Nat) (e : Expr) :
    (evalExpr host fuel e).Leaves (Environment.Unfixed x) := by
  induction fuel generalizing e with
  | zero => exact .stop _
  | succ fuel ih =>
    obtain ⟨span, form⟩ := e
    exact .within span (leaves_valueOf ih (unfixed_enterFunction x host fuel) form)

/-! ## Assignments -/

theorem assign_apply (ev : Evaluator) (name : String) (value : Expr) (st : State) :
    assign ev name value st =
      match st.env.checkAssignable name with
      | .error r => .failed { cause := .ofRefusal name r } st
      | .ok () => (ev.expr value st).andThen fun v mid =>
        match mid.env.assign name v with
        | .error r => .failed { cause := .ofRefusal name r } mid
        | .ok env => .ok .normal { mid with env } := by
  unfold assign
  rw [Exec.bind_eq_andThen]
  simp only [Exec.bindings]
  cases st.env.checkAssignable name with
  | error r => rfl
  | ok _ =>
    refine congrArg ((ev.expr value st).andThen ·) (funext fun v => funext fun mid => ?_)
    rw [Exec.bind_eq_andThen]
    simp only [Exec.bindings]
    cases mid.env.assign name v <;> rfl

/-- What happens to a target that is refused after the value has been evaluated: it was a global
that the frame does not hide, and the value has unbound it. -/
structure LosesTarget (name : String) (before after : Environment) : Prop where
  notInFrame : before.frameContains name = false
  bound : before.globals.contains name = true
  mutable : before.globals.isImmutable name = false
  unbound : after.globals.contains name = false
  frames : after.frames = before.frames

/-- A variable of the frame is taken from there. -/
theorem scopeOf_of_frameContains {e e' : Environment} {name : String}
    (inFrame : e.frameContains name = true) (frames : e'.frames = e.frames) :
    e'.scopeOf name = e.scopeOf name := by
  obtain ⟨globals, _, functions⟩ := e
  obtain ⟨globals', inner, functions'⟩ := e'
  obtain rfl := frames
  cases inner with
  | nil => cases inFrame
  | cons frame rest =>
    have contains : frame.contains name = true := inFrame
    simp [Environment.scopeOf, Environment.frameContains, Environment.innermost, contains]

/-- Between the two looks at the target, the value can do nothing to it but unbind a global. -/
theorem losesTarget_of_refused {host : Host} {fuel : Nat} {name : String} {value : Expr} {v : Value}
    {st mid : State} {r : Refusal} (free : st.env.checkAssignable name = .ok ())
    (run : evalExpr host fuel value st = .ok v mid) (refused : mid.env.assign name v = .error r) :
    r = .undefined ∧ LosesTarget name st.env mid.env := by
  have ends : mid ∈ (evalExpr host fuel value st).state? := by rw [run]; rfl
  have frames : mid.env.frames = st.env.frames :=
    ((local_evaluator host fuel).expr value).keeps ends
  have again : mid.env.checkAssignable name = .error r := by
    unfold Environment.assign at refused
    split at refused
    · next h =>
      cases refused
      exact h
    · cases refused
  have notInFrame : st.env.frameContains name = false := by
    apply Bool.eq_false_iff.2
    intro inFrame
    unfold Environment.checkAssignable at again free
    rw [scopeOf_of_frameContains inFrame frames, free] at again
    cases again
  have same : mid.env.frameContains name = st.env.frameContains name := by
    unfold Environment.frameContains
    rw [frames]
  have global : st.env.scopeOf name = st.env.globals := by
    rw [Environment.scopeOf, notInFrame]
    rfl
  have global' : mid.env.scopeOf name = mid.env.globals := by
    rw [Environment.scopeOf, same, notInFrame]
    rfl
  have mutable := Operation.isImmutable_of_checkAssignable free
  have bound := Environment.Reserves.contains_of_checkAssignable free
  rw [global] at mutable bound
  -- the value has not bound the global for good, so the second look does not find it at all
  have unfixed : mid.env.globals.isImmutable name = false :=
    (unfixed_evalExpr name host fuel value st (.of_isImmutable mutable) mid ends).isImmutable
  unfold Environment.checkAssignable at again
  rw [global'] at again
  dsimp only at again
  split at again
  · next unbound =>
    cases again
    exact ⟨rfl, notInFrame, bound, mutable, by simpa using unbound, frames⟩
  · rw [unfixed] at again
    cases again

/-- What an assignment comes to. -/
theorem runStmt_assign (host : Host) (fuel : Nat) (span : Span) (name : String) (value : Expr)
    (st : State) :
    runStmt host (fuel + 1) (.at span (.assign name value)) st =
      match st.env.checkAssignable name with
      | .error r => .failed { cause := .ofRefusal name r, span := some span } st
      | .ok () => ((evalExpr host fuel value st).andThen fun v mid =>
        match mid.env.assign name v with
        | .error r => .failed { cause := .ofRefusal name r } mid
        | .ok env => .ok .normal { mid with env }).refault (·.within span) := by
  change Exec.within span (assign (evaluator host fuel) name value) st = _
  rw [Exec.within_apply, assign_apply]
  cases st.env.checkAssignable name <;> rfl

/-- The value of `x` is to come from a function that deletes `x`. -/
theorem exists_failed_of_deletion :
    let host : Host := ⟨Files.inMemory, none⟩
    let setup := "let x = 1 func f() \x7b show \"gone\" delvar x return 2 \x7d"
    let value : Expr := .at ⟨4, 7⟩ (.call "f" [])
    let fault : Fault := { cause := .undefinedVariable "x", span := some ⟨0, 7⟩ }
    ∃ st v mid last, runSource host 20 setup none .initial = .ok () st ∧
      st.env.checkAssignable "x" = .ok () ∧ evalExpr host 19 value st = .ok v mid ∧
      runStmt host 20 (.at ⟨0, 7⟩ (.assign "x" value)) st = .failed fault last ∧
      st.output = #[] ∧ last.output = #[⟨.info, "gone"⟩] := by
  intro host setup value fault
  have ends : (runSource host 20 setup none .initial).isOk = true := by decide +kernel
  obtain ⟨⟨⟩, st, ran⟩ := Outcome.exists_of_isOk ends
  have refused : ((runSource host 20 setup none .initial).state?.map fun st =>
      (st.env.checkAssignable "x").isOk && (evalExpr host 19 value st).isOk &&
        (runStmt host 20 (.at ⟨0, 7⟩ (.assign "x" value)) st).fault? = some fault &&
        st.output = #[] &&
        (runStmt host 20 (.at ⟨0, 7⟩ (.assign "x" value)) st).state?.map State.output =
          some #[⟨.info, "gone"⟩]) = some true := by
    decide +kernel
  simp only [ran, Outcome.state?, Option.map_some, Option.some.injEq, Bool.and_eq_true,
    decide_eq_true_eq] at refused
  obtain ⟨⟨⟨⟨free, well⟩, failed⟩, silent⟩, printed⟩ := refused
  obtain ⟨v, mid, evaluated⟩ := Outcome.exists_of_isOk well
  obtain ⟨last, failed⟩ := Outcome.fault?_eq_some.1 failed
  rw [failed] at printed
  refine ⟨st, v, mid, last, ran, ?_, evaluated, failed, silent, by simpa using printed⟩
  cases h : st.env.checkAssignable "x" with
  | ok => rfl
  | error => rw [h] at free; cases free

/-- An assignment whose target is refused has no effect at all, with one exception. If the target
can not be assigned to in the first place, the value is not evaluated and the state stays what it
is. If it can and the value has been evaluated, then only a global that the frame does not hide is
still refused, and only because the value has unbound it: the fault is that there is no such
variable, the state is the one that the value has left, and all frames are as they were. So the
refusal of a variable that is bound for good never has an effect. In all other cases in which an
assignment fails it is the value that does. -/
theorem a_refused_assignment_has_no_effect_unless_its_value_unbinds_the_target (host : Host)
    (fuel : Nat) (span : Span) (name : String) (value : Expr) (st : State) :
    (∀ r, st.env.checkAssignable name = .error r →
      runStmt host (fuel + 1) (.at span (.assign name value)) st =
        .failed { cause := .ofRefusal name r, span := some span } st) ∧
    ∀ f last, runStmt host (fuel + 1) (.at span (.assign name value)) st = .failed f last →
      (∃ r, st.env.checkAssignable name = .error r ∧ last = st ∧
        f = { cause := .ofRefusal name r, span := some span }) ∨
      (∃ v, st.env.checkAssignable name = .ok () ∧ evalExpr host fuel value st = .ok v last ∧
        LosesTarget name st.env last.env ∧
        f = { cause := .undefinedVariable name, span := some span }) ∨
      ∃ g, st.env.checkAssignable name = .ok () ∧ evalExpr host fuel value st = .failed g last ∧
        f = g.within span := by
  rw [runStmt_assign]
  refine ⟨fun r refused => by rw [refused], fun f last failed => ?_⟩
  cases free : st.env.checkAssignable name with
  | error r =>
    rw [free] at failed
    cases failed
    exact .inl ⟨r, rfl, rfl, rfl⟩
  | ok _ =>
    rw [free] at failed
    cases run : evalExpr host fuel value st with
    | broken reason =>
      rw [run] at failed
      cases failed
    | failed g mid =>
      rw [run] at failed
      cases failed
      exact .inr (.inr ⟨g, rfl, rfl, rfl⟩)
    | ok v mid =>
      rw [run] at failed
      dsimp only [Outcome.andThen] at failed
      cases refused : mid.env.assign name v with
      | ok env =>
        rw [refused] at failed
        cases failed
      | error r =>
        rw [refused] at failed
        obtain ⟨rfl, loses⟩ := losesTarget_of_refused free run refused
        cases failed
        exact .inr (.inl ⟨v, rfl, rfl, loses, rfl⟩)

/-- A constant is to become an array with one more element: it is refused, and the array is not
made longer. A variable that the function deletes on the way is refused as well, but there the
function has run. -/
theorem a_constant_and_a_deleted_variable_are_refused :
    let host : Host := ⟨Files.inMemory, none⟩
    let setup := "make x = 1 let a = [x]"
    let longer : Expr := .at ⟨4, 14⟩ (.append "a" (.at ⟨13, 14⟩ (.name "x")))
    let assignment : Stmt := .at ⟨0, 14⟩ (.assign "x" longer)
    let deletion : Expr := .at ⟨4, 7⟩ (.call "f" [])
    (parse "x = arradd a x" = .ok [assignment] ∧
      ∃ st, runSource host 20 setup none .initial = .ok () st ∧
        st.env.checkAssignable "x" = .error (.immutable "x") ∧
        (evalExpr host 19 longer st).isOk = true ∧
        runStmt host 20 assignment st =
          .failed { cause := .immutable "x", span := some ⟨0, 14⟩ } st) ∧
      ∃ st v last, evalExpr host 19 deletion st = .ok v last ∧
        runStmt host 20 (.at ⟨0, 7⟩ (.assign "x" deletion)) st =
          .failed { cause := .undefinedVariable "x", span := some ⟨0, 7⟩ } last ∧
        LosesTarget "x" st.env last.env := by
  intro host setup longer assignment deletion
  constructor
  · have ends : (runSource host 20 setup none .initial).isOk = true := by decide +kernel
    obtain ⟨⟨⟩, st, ran⟩ := Outcome.exists_of_isOk ends
    have fixed : ((runSource host 20 setup none .initial).state?.map fun st =>
        (st.env.scopeOf "x").isImmutable "x" && (evalExpr host 19 longer st).isOk) = some true := by
      decide +kernel
    simp only [ran, Outcome.state?, Option.map_some, Option.some.injEq, Bool.and_eq_true] at fixed
    obtain ⟨fixed, well⟩ := fixed
    have refused : st.env.checkAssignable "x" = .error (.immutable "x") := by
      obtain ⟨b, found, -⟩ := Scope.isImmutable_iff.1 fixed
      have bound : (st.env.scopeOf "x").contains "x" = true := by
        simp [Scope.contains, found]
      simp [Environment.checkAssignable, bound, fixed]
    exact ⟨by cbv, st, ran, refused, well,
      (a_refused_assignment_has_no_effect_unless_its_value_unbinds_the_target host 19 ⟨0, 14⟩ "x"
        longer st).1 _ refused⟩
  · obtain ⟨st, v, mid, last, -, free, evaluated, failed, -⟩ := exists_failed_of_deletion
    obtain ⟨r, refused, -⟩ | ⟨v', -, evaluated', loses, -⟩ | ⟨g, -, stuck, -⟩ :=
      (a_refused_assignment_has_no_effect_unless_its_value_unbinds_the_target host 19 ⟨0, 7⟩ "x"
        deletion st).2 _ _ failed
    · rw [free] at refused
      cases refused
    · exact ⟨st, v', last, evaluated', failed, loses⟩
    · have stuck : evalExpr host 19 deletion st = .failed g last := stuck
      rw [evaluated] at stuck
      cases stuck

/-- The function deletes the variable that its value is for: the assignment is refused, but what
the function has printed stays printed, and the variable is gone. -/
theorem a_function_that_deletes_the_target :
    let host : Host := ⟨Files.inMemory, none⟩
    let setup := "let x = 1 func f() \x7b show \"gone\" delvar x return 2 \x7d"
    let value : Expr := .at ⟨4, 7⟩ (.call "f" [])
    let assignment : Stmt := .at ⟨0, 7⟩ (.assign "x" value)
    let fault : Fault := { cause := .undefinedVariable "x", span := some ⟨0, 7⟩ }
    parse "x = f()" = .ok [assignment] ∧
      ∃ st last, runSource host 20 setup none .initial = .ok () st ∧
      (evalExpr host 19 value st).isOk = true ∧
      runStmt host 20 assignment st = .failed fault last ∧
      ¬ (last.env = st.env ∧ last.heap = st.heap ∧ last.output = st.output) := by
  intro host setup value assignment fault
  obtain ⟨st, v, mid, last, ran, -, evaluated, failed, silent, printed⟩ :=
    exists_failed_of_deletion
  refine ⟨by cbv, st, last, ran, ?_, failed, ?_⟩
  · rw [evaluated]
    rfl
  · rintro ⟨-, -, same⟩
    simp [silent, printed] at same

end BraceScript
