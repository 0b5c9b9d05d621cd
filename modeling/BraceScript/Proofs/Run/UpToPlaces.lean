-- States that are the same up to the places in the bodies of their functions.
-- Programs that differ in their places only keep them so, and print the same,
-- whatever was printed before.
import BraceScript.Proofs.Run.Lockstep

namespace BraceScript

/-! ## The same up to places -/

/-- The bindings, with functions whose bodies have no places. -/
def Environment.bare (e : Environment) : Environment :=
  { e with functions := e.functions.map fun entry => (entry.1, entry.2.bare) }

/-- The same bindings, arrays and files in progress. The bodies of functions may differ in
their places. -/
structure State.SameUpToPlaces (st st' : State) : Prop where
  env : st.env.bare = st'.env.bare
  heap : st.heap = st'.heap
  includes : st.includes = st'.includes

theorem State.SameUpToPlaces.trans {st st' st'' : State} (h : st.SameUpToPlaces st')
    (h' : st'.SameUpToPlaces st'') : st.SameUpToPlaces st'' :=
  ⟨h.env.trans h'.env, h.heap.trans h'.heap, h.includes.trans h'.includes⟩

/-- What has been printed does not count. -/
theorem State.SameUpToPlaces.of_output {st st' : State}
    (h : { st with output := #[] } = { st' with output := #[] }) : st.SameUpToPlaces st' := by
  obtain ⟨env, heap, includes, output⟩ := st
  obtain ⟨env', heap', includes', output'⟩ := st'
  cases h
  exact ⟨rfl, rfl, rfl⟩

variable {e e' : Environment}

@[simp] theorem Environment.lookup_bare (e : Environment) (name : String) :
    e.bare.lookup name = e.lookup name := rfl

theorem Environment.function?_bare (e : Environment) (name : String) :
    e.bare.function? name = (e.function? name).map Function.bare := by
  obtain ⟨globals, frames, functions⟩ := e
  simp only [function?, bare]
  induction functions with
  | nil => rfl
  | cons entry functions ih =>
    rw [List.map_cons, List.lookup_cons, List.lookup_cons]
    split
    · rfl
    · exact ih

/-! ## Changes of bindings -/

section

variable (e : Environment) (name : String) (scope : Scope)

theorem Environment.setInnermost_bare :
    e.bare.setInnermost scope = (e.setInnermost scope).bare := by
  unfold setInnermost bare
  cases e.frames <;> rfl

theorem Environment.setScopeOf_bare :
    e.bare.setScopeOf name scope = (e.setScopeOf name scope).bare := by
  have same : e.bare.frameContains name = e.frameContains name := rfl
  unfold setScopeOf
  rw [same, setInnermost_bare]
  split <;> rfl

theorem Environment.checkAssignable_bare : e.bare.checkAssignable name = e.checkAssignable name :=
  rfl

end

/-- A change of variables has nothing to do with functions. -/
theorem VariableChange.bare {change : Environment → Except Refusal Environment}
    (h : VariableChange change) (e : Environment) :
    change e.bare = (change e).map Environment.bare := by
  have innermost : e.bare.innermost = e.innermost := rfl
  have globals : e.bare.globals = e.globals := rfl
  have scopeOf (name : String) : e.bare.scopeOf name = e.scopeOf name := rfl
  cases h with
  | declare name value immutable =>
    simp only [Environment.declare, innermost, globals, Environment.setInnermost_bare]
    split
    · rfl
    split <;> rfl
  | check name =>
    simp only [Environment.checkAssignable_bare]
    cases e.checkAssignable name <;> rfl
  | assign name value =>
    simp only [Environment.assign, Environment.checkAssignable_bare, scopeOf,
      Environment.setScopeOf_bare]
    split <;> rfl
  | setGlobal name value =>
    simp only [Environment.setGlobal, globals]
    split <;> rfl
  | delete name =>
    simp only [Environment.deleteVariable, innermost, Environment.checkAssignable_bare, scopeOf,
      Environment.setInnermost_bare, Environment.setScopeOf_bare]
    split
    · split <;> rfl
    · split <;> rfl

theorem Environment.defineFunction_bare (e : Environment) (f : Function) :
    e.bare.defineFunction f.bare = (e.defineFunction f).map bare := by
  have name : f.bare.name = f.name := rfl
  simp only [defineFunction, bare, name, List.filter_map]
  split <;> rfl

theorem Environment.deleteFunction_bare (e : Environment) (name : String) :
    e.bare.deleteFunction name = (e.deleteFunction name).map bare := by
  unfold deleteFunction
  rw [function?_bare, Option.isSome_map]
  split
  · rfl
  · split
    · simp only [bare, List.filter_map]
      rfl
    · rfl

/-! ## Programs -/

/-- The same up to places, and what one of the two has printed before. -/
structure State.Follows (earlier : Array Event) (st st' : State) : Prop where
  same : st.SameUpToPlaces st'
  output : st'.output = earlier ++ st.output

/-- Two changes of bindings that are the same on bare bindings go in step. -/
theorem inStep_bindings {earlier : Array Event}
    {change change' : Environment → Except Refusal Environment} (cause : Refusal → Fault.Cause)
    (h : ∀ e e', e.bare = e'.bare →
      (change e).map Environment.bare = (change' e').map Environment.bare) :
    (Exec.bindings change cause).InStep (State.Follows earlier) (Exec.bindings change' cause) := by
  intro st st' related
  have both := h _ _ related.same.env
  unfold Exec.bindings
  generalize change st.env = r, change' st'.env = r' at both
  cases r with
  | ok e =>
    cases r' with
    | ok e' =>
      refine .ok ⟨⟨?_, related.same.heap, related.same.includes⟩, related.output⟩
      simpa [Except.map] using both
    | error refusal' => simp [Except.map] at both
  | error refusal =>
    cases r' with
    | ok e' => simp [Except.map] at both
    | error refusal' =>
      obtain rfl : refusal = refusal' := by simpa [Except.map] using both
      exact .failed rfl related

theorem lockstep_follows (host : Host) (earlier : Array Event) :
    Lockstep host fun _ => State.Follows earlier where
  heap related := related.same.heap
  lookup name related := by
    rw [← Environment.lookup_bare, related.same.env, Environment.lookup_bare]
  function name related := by
    rw [← Environment.function?_bare, related.same.env, Environment.function?_bare]
  resolve name related := by rw [related.same.includes]
  contains path related := by rw [related.same.includes]
  setHeap heap related := ⟨⟨related.same.env, rfl, related.same.includes⟩, related.output⟩
  print event related := by
    refine ⟨⟨related.same.env, related.same.heap, related.same.includes⟩, ?_⟩
    dsimp only
    rw [related.output, Array.push_append]
  changeVariable cause h := by
    apply inStep_bindings cause
    intro e e' same
    rw [← h.bare, ← h.bare, same]
  unsetGlobal name related := by
    refine ⟨⟨?_, related.same.heap, related.same.includes⟩, related.output⟩
    exact congrArg (·.unsetGlobal name) related.same.env
  defineFunction cause same := by
    apply inStep_bindings cause
    intro e e' bare
    rw [← Environment.defineFunction_bare, ← Environment.defineFunction_bare, same, bare]
  deleteFunction name cause := by
    apply inStep_bindings cause
    intro e e' bare
    rw [← Environment.deleteFunction_bare, ← Environment.deleteFunction_bare, bare]
  enterCall frame related := by
    refine ⟨⟨?_, related.same.heap, related.same.includes⟩, related.output⟩
    exact congrArg (·.pushFrame frame) related.same.env
  leaveCall related := by
    refine ⟨⟨?_, related.same.heap, related.same.includes⟩, related.output⟩
    exact congrArg Environment.popFrame related.same.env
  enterFile path related := by
    refine ⟨⟨related.same.env, related.same.heap, ?_⟩, related.output⟩
    exact congrArg (path :: ·) related.same.includes
  leaveFile related := by
    refine ⟨⟨related.same.env, related.same.heap, ?_⟩, related.output⟩
    exact congrArg List.tail related.same.includes

/-- Rows of statements that differ in nothing but their places go in step, whatever was printed
before. -/
theorem inStep_of_bare (host : Host) (fuel : Nat) (earlier : Array Event) {ss ss' : List Stmt}
    (h : ss.map Stmt.bare = ss'.map Stmt.bare) :
    ((evaluator host fuel).block ss).InStep (State.Follows earlier)
      ((evaluator host fuel).block ss') :=
  inStep_block (n := 0) (inStep_evaluator (lockstep_follows host earlier) fuel) h

end BraceScript
