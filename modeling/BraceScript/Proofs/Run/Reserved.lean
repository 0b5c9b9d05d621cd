-- The name that stands for all bindings at once is none of a variable, a
-- parameter or a function, with one exception. A counting loop does not ask
-- for the name of its counter, so the name may be a global while such a loop
-- is in progress. Nothing else that a run can do leads there.
import BraceScript.Proofs.Run.Immutable

namespace BraceScript

variable {α : Type} {counting more : Prop}

/-! ## Scopes without the name -/

/-- The name of all bindings is not bound, unless it counts; then it is not bound for good. -/
def Scope.Spares (counting : Prop) (s : Scope) : Prop :=
  ∀ b, s.find? everyName = some b → counting ∧ b.immutable = false

namespace Scope.Spares

variable {s : Scope} {name : String} {v : Value} {immutable : Bool}

theorem empty : Scope.empty.Spares counting := by
  intro b hb
  cases hb

theorem mono (h : s.Spares counting) (le : counting → more) : s.Spares more := by
  intro b hb
  obtain ⟨counts, mutable⟩ := h b hb
  exact ⟨le counts, mutable⟩

theorem define (h : s.Spares counting) (ne : name ≠ everyName) :
    (s.define name v immutable).Spares counting := by
  intro b hb
  rw [Scope.find?_define, if_neg ne.symm] at hb
  exact h b hb

/-- Another value for a name that is bound. -/
theorem redefine (h : s.Spares counting) (bound : s.contains name = true) :
    (s.define name v false).Spares counting := by
  intro b hb
  rw [Scope.find?_define] at hb
  split at hb
  · next same =>
    subst same
    obtain ⟨old, hold⟩ := Option.isSome_iff_exists.1 bound
    cases hb
    exact ⟨(h old hold).1, rfl⟩
  · exact h b hb

theorem without (h : s.Spares counting) : (s.without name).Spares counting := by
  intro b hb
  rw [Scope.find?_without] at hb
  split at hb
  · cases hb
  · exact h b hb

end Scope.Spares

/-! ## Bindings without the name -/

/-- Neither a frame nor a function has the name of all bindings, and a global has it only
while it counts. -/
structure Environment.Reserves (counting : Prop) (e : Environment) : Prop where
  frames : ∀ frame ∈ e.frames, frame.Spares False
  globals : e.globals.Spares counting
  functions : e.function? everyName = none

namespace Environment.Reserves

variable {e e' : Environment} {name : String} {v : Value} {s : Scope}

theorem mono (h : e.Reserves counting) (le : counting → more) : e.Reserves more :=
  ⟨h.frames, h.globals.mono le, h.functions⟩

theorem pushFrame (h : e.Reserves counting) (hs : s.Spares False) :
    (e.pushFrame s).Reserves counting :=
  ⟨List.forall_mem_cons.2 ⟨hs, h.frames⟩, h.globals, h.functions⟩

theorem popFrame (h : e.Reserves counting) : e.popFrame.Reserves counting :=
  ⟨fun frame hframe => h.frames frame (List.mem_of_mem_tail hframe), h.globals, h.functions⟩

/-- The innermost scope may be replaced by one that spares the name if the old one does. -/
theorem setInnermost (h : e.Reserves counting)
    (hs : ∀ among, e.innermost.Spares among → s.Spares among) :
    (e.setInnermost s).Reserves counting := by
  unfold Environment.setInnermost
  unfold Environment.innermost at hs
  split
  · next frame rest hframes =>
    rw [hframes] at hs
    have hfs := h.frames
    rw [hframes] at hfs
    obtain ⟨hframe, hrest⟩ := List.forall_mem_cons.1 hfs
    exact ⟨List.forall_mem_cons.2 ⟨hs False hframe, hrest⟩, h.globals, h.functions⟩
  · next hframes =>
    rw [hframes] at hs
    exact ⟨h.frames, hs counting h.globals, h.functions⟩

/-- The same for the scope that some variable is taken from. -/
theorem setScopeOf (h : e.Reserves counting)
    (hs : ∀ among, (e.scopeOf name).Spares among → s.Spares among) :
    (e.setScopeOf name s).Reserves counting := by
  unfold Environment.setScopeOf
  unfold Environment.scopeOf at hs
  split
  · next inFrame =>
    rw [if_pos inFrame] at hs
    exact h.setInnermost hs
  · next inFrame =>
    rw [if_neg inFrame] at hs
    exact ⟨h.frames, hs counting h.globals, h.functions⟩

theorem declare {immutable : Bool} (h : e.Reserves counting)
    (hd : e.declare name v immutable = .ok e') : e'.Reserves counting := by
  unfold Environment.declare at hd
  split at hd
  · cases hd
  split at hd
  · cases hd
  next free _ =>
    cases hd
    exact h.setInnermost fun _ hs => hs.define free

/-- What may be assigned to is bound. -/
theorem contains_of_checkAssignable (h : e.checkAssignable name = .ok ()) :
    (e.scopeOf name).contains name = true := by
  cases bound : (e.scopeOf name).contains name with
  | true => rfl
  | false => simp [checkAssignable, bound] at h

theorem assign (h : e.Reserves counting) (ha : e.assign name v = .ok e') :
    e'.Reserves counting := by
  unfold Environment.assign at ha
  split at ha
  · cases ha
  · next bound =>
    cases ha
    exact h.setScopeOf fun _ hs => hs.redefine (contains_of_checkAssignable bound)

/-- The counter of a loop may have the name. -/
theorem setGlobal (h : e.Reserves counting) (hs : e.setGlobal name v = .ok e') :
    e'.Reserves (counting ∨ name = everyName) := by
  unfold Environment.setGlobal at hs
  split at hs
  · cases hs
  · cases hs
    refine ⟨h.frames, ?_, h.functions⟩
    by_cases same : name = everyName
    · intro b hb
      rw [same, Scope.find?_define, if_pos rfl] at hb
      cases hb
      exact ⟨Or.inr same, rfl⟩
    · exact (h.globals.mono Or.inl).define same

/-- Once the counter is gone, the name is bound only if it has been before. -/
theorem unsetGlobal (h : e.Reserves (counting ∨ name = everyName)) :
    (e.unsetGlobal name).Reserves counting := by
  refine ⟨h.frames, fun b hb => ?_, h.functions⟩
  simp only [Environment.unsetGlobal, Scope.find?_without] at hb
  split at hb
  · cases hb
  · next ne =>
    obtain ⟨counts, mutable⟩ := h.globals b hb
    exact ⟨counts.resolve_right (Ne.symm ne), mutable⟩

theorem deleteVariable (h : e.Reserves counting) (hd : e.deleteVariable name = .ok e') :
    e'.Reserves counting := by
  unfold Environment.deleteVariable at hd
  split at hd
  · split at hd
    · cases hd
    · cases hd
      exact h.setInnermost fun _ _ => .empty
  · split at hd
    · cases hd
    · cases hd
      exact h.setScopeOf fun _ hs => hs.without

/-- Functions of other names may come and go. -/
theorem lookup_filter_eq_none {entries : List (String × Function)} {keep : String × Function → Bool}
    (h : entries.lookup name = none) : (entries.filter keep).lookup name = none := by
  rw [List.lookup_eq_none_iff] at h ⊢
  exact fun entry hentry => h entry (List.mem_filter.1 hentry).1

theorem defineFunction {f : Function} (h : e.Reserves counting)
    (hd : e.defineFunction f = .ok e') : e'.Reserves counting := by
  unfold Environment.defineFunction at hd
  split at hd
  · cases hd
  · next free =>
    cases hd
    refine ⟨h.frames, h.globals, ?_⟩
    have other : (everyName == f.name) = false := by simpa using Ne.symm free
    simp only [function?, List.lookup_cons, other]
    exact lookup_filter_eq_none h.functions

theorem deleteFunction (h : e.Reserves counting) (hd : e.deleteFunction name = .ok e') :
    e'.Reserves counting := by
  unfold Environment.deleteFunction at hd
  split at hd
  · cases hd
    exact ⟨h.frames, h.globals, rfl⟩
  · split at hd
    · cases hd
      exact ⟨h.frames, h.globals, lookup_filter_eq_none h.functions⟩
    · cases hd

end Environment.Reserves

/-- A call with such a parameter gets no frame. -/
theorem spares_of_callFrame {params : List String} {values : List Value} {frame frame' : Scope}
    (h : callFrame params values frame = .ok frame') (hframe : frame.Spares counting) :
    frame'.Spares counting := by
  induction params generalizing values frame with
  | nil =>
    cases h
    exact hframe
  | cons param params ih =>
    unfold callFrame at h
    split at h
    · cases h
    · next free => exact ih h (hframe.define free)

theorem callFrame_of_mem {params : List String} {values : List Value} {frame : Scope}
    (h : everyName ∈ params) : callFrame params values frame = .error (.reserved .parameter) := by
  induction params generalizing values frame with
  | nil => cases h
  | cons param params ih =>
    unfold callFrame
    split
    · rfl
    · next free => exact ih ((List.mem_cons.1 h).resolve_left (Ne.symm free))

/-- No change between two visits binds the name, unless it is the counter of the rounds. -/
theorem Change.reserves {home : Home} {st st' : State} (c : Change home st st')
    (counts : home.counter? = some everyName → counting) (h : st.env.Reserves counting) :
    st'.env.Reserves counting := by
  cases c with
  | heap | print => exact h
  | declare hd => exact h.declare hd
  | assign ha => exact h.assign ha
  | setGlobal rounds hs =>
    refine (h.setGlobal hs).mono ?_
    rintro (old | rfl)
    · exact old
    · exact counts rounds
  | deleteVariable hd => exact h.deleteVariable hd
  | defineFunction _ hd => exact h.defineFunction hd
  | deleteFunction hd => exact h.deleteFunction hd

/-! ## Along a run -/

/-- The name is not bound but as a counter: that of a loop in progress, or one from before. -/
def Moment.Reserves (counting : Prop) (m : Moment) : Prop :=
  m.state.env.Reserves (counting ∨ .loop everyName ∈ m.inProgress)

theorem Moment.Reserves.inside {m : Moment} (h : m.Reserves counting) {settings : List Setting}
    (le : counting → more ∨ .loop everyName ∈ settings) : (m.inside settings).Reserves more := by
  refine Environment.Reserves.mono h ?_
  rintro (counts | inProgress)
  · exact (le counts).imp id (List.mem_append_right _)
  · exact Or.inr (List.mem_append_left _ inProgress)

/-- At all these moments the name is not bound but as a counter, and in the state that the
outcome leaves it is so only if it was one before. -/
structure Reserving (counting : Prop) (moments : List Moment) (o : Outcome α) : Prop where
  moments : ∀ m ∈ moments, m.Reserves counting
  state : ∀ st ∈ o.state?, st.env.Reserves counting

variable {l k : List Moment} {o : Outcome α} {st : State}

theorem Reserving.append (h : ∀ m ∈ l, m.Reserves counting) (h' : Reserving counting k o) :
    Reserving counting (l ++ k) o :=
  ⟨List.forall_mem_append.2 ⟨h, h'.moments⟩, h'.state⟩

theorem Reserving.congr {β : Type} {o' : Outcome β} (h : Reserving counting l o)
    (same : o'.state? = o.state?) : Reserving counting l o' :=
  ⟨h.moments, same ▸ h.state⟩

/-- Inside of something, at the end of which something is undone. -/
theorem Reserving.within {settings : List Setting} {g : State → State}
    (h : Reserving counting l o) (le : counting → more ∨ .loop everyName ∈ settings)
    (undo : ∀ st, st.env.Reserves counting → (g st).env.Reserves more) :
    Reserving more (l.map (Moment.inside settings)) (o.change g) := by
  refine ⟨fun m hm => ?_, fun st hst => ?_⟩
  · obtain ⟨m', hm', rfl⟩ := List.mem_map.1 hm
    exact (h.moments m' hm').inside le
  · rw [Outcome.state?_change] at hst
    obtain ⟨last, hlast, rfl⟩ := Option.map_eq_some_iff.1 hst
    exact undo last (h.state last hlast)

/-- The state before and the one after can be told. -/
theorem Reserving.bounded (h : Reserving counting l o) (hst : st.env.Reserves counting) :
    Reserving counting (.of st :: l ++ o.ending) o := by
  have here {st : State} (hst : st.env.Reserves counting) : (Moment.of st).Reserves counting :=
    hst.mono Or.inl
  refine ⟨fun m hm => ?_, h.state⟩
  rw [List.cons_append, List.mem_cons, List.mem_append] at hm
  rcases hm with rfl | hm | hm
  · exact here hst
  · exact h.moments m hm
  · cases o with
    | ok v last | failed f last =>
      rw [List.mem_singleton.1 hm]
      exact here (h.state last rfl)
    | broken reason => cases hm

variable {host : Host} {ev : Evaluator} {home : Home} {vs : List Visit}

/-- If no visit binds the name, visits that follow on each other do not. -/
theorem Threads.reserving {moments : Node → State → List Moment} {o : Outcome Unit}
    (each : ∀ n st counting, st.env.Reserves counting →
      Reserving counting (moments n st) (ev.run n st))
    (h : Threads host ev home st vs o) (counts : home.counter? = some everyName → counting)
    (hst : st.env.Reserves counting) : Reserving counting (momentsOf moments vs) o := by
  induction h generalizing counting with
  | done => exact ⟨by simp [momentsOf], by rintro _ ⟨⟩; exact hst⟩
  | change c => exact ⟨by simp [momentsOf], by rintro _ ⟨⟩; exact c.reserves counts hst⟩
  | raise => exact ⟨by simp [momentsOf], by rintro _ ⟨⟩; exact hst⟩
  | stop => exact ⟨by simp [momentsOf], by rintro _ ⟨⟩⟩
  | @visit home st n _ =>
    rw [momentsOf_single]
    exact each n st _ hst
  | andThen _ _ ih ih' =>
    have first := ih counts hst
    rw [momentsOf_append]
    exact .append first.moments (ih' counts (first.state _ rfl))
  | @joined home n st mid f vs o _ fails _ ih =>
    have first := each n st _ hst
    rw [fails] at first
    have second := ih counts (first.state _ rfl)
    rw [← List.singleton_append, momentsOf_append, momentsOf_single]
    exact .append first.moments ⟨second.moments, by simpa using second.state⟩
  | @call home st mid name f values frame vs ws o _ _ hframe _ ih ih' =>
    have first := ih counts hst
    have entered := (first.state mid rfl).pushFrame (spares_of_callFrame hframe .empty)
    have body := ih' (by rintro ⟨⟩) entered
    rw [momentsOf_append, momentsOf_inside]
    exact .append first.moments (body.within Or.inl fun _ hlast => hlast.popFrame)
  | @file home st name path source vs o _ _ _ _ _ ih =>
    have text : Reserving counting ((momentsOf moments vs).map (Moment.inside [.file path]))
        (o.change fun st => { st with includes := st.includes.tail }) :=
      (ih (by rintro ⟨⟩) hst).within Or.inl fun _ hlast => hlast
    rw [momentsOf_inside]
    exact text.congr (Outcome.state?_refault _ _)
  | @loop n st counter value env vs o hset _ ih =>
    have rounds : Reserving (counting ∨ counter = everyName) (momentsOf moments vs) o :=
      ih (fun same => Or.inr (Option.some.inj same)) (hst.setGlobal hset)
    rw [momentsOf_inside]
    refine rounds.within ?_ fun _ hlast => hlast.unsetGlobal
    rintro (old | rfl)
    · exact Or.inl old
    · exact Or.inr (List.mem_singleton.2 rfl)

/-- No node binds the name but as a counter. -/
theorem reserving_course (host : Host) (fuel : Nat) (n : Node) (st : State) (counting : Prop)
    (hst : st.env.Reserves counting) :
    Reserving counting (course host fuel n st) ((evaluator host fuel).run n st) := by
  induction fuel generalizing n st counting with
  | zero =>
    have kept : Reserving counting [] ((evaluator host 0).run n st) := by
      refine ⟨by simp, ?_⟩
      cases n with
      | text source =>
        cases hp : parse source <;> simpa [Evaluator.run, hp, Outcome.state?] using hst
      | _ => simp [Evaluator.run, evaluator, evalExpr, runStmt, Exec.bind_apply, Exec.stop,
          Outcome.state?]
    exact kept.bounded hst
  | succ fuel ih =>
    obtain ⟨o, threads, hrun⟩ := threads_run host fuel n st
    have inner := threads.reserving ih (by rintro ⟨⟩) hst
    exact (inner.congr (by rw [hrun, Outcome.state?_refault])).bounded hst

theorem Source.reserving_course (source : Source) (host : Host) (fuel : Nat) {st : State}
    (hst : st.env.Reserves counting) :
    Reserving counting (source.course host fuel st) (source.run host fuel st) := by
  obtain ⟨o, threads, hrun⟩ := source.threads_run host fuel st
  have entered : (source.enter host st).env = st.env := by
    unfold enter
    cases source.origin <;> rfl
  have left (last : State) : (source.leave last).env = last.env := by
    unfold leave
    cases source.origin <;> rfl
  have inner := threads.reserving (BraceScript.reserving_course host fuel) (by rintro ⟨⟩)
    (entered ▸ hst)
  refine Reserving.bounded ⟨inner.moments, fun last hlast => ?_⟩ hst
  rw [hrun, Outcome.state?_change] at hlast
  obtain ⟨end', hend, rfl⟩ := Option.map_eq_some_iff.1 hlast
  exact left end' ▸ inner.state end' hend

/-- Nor do sources that are run one after the other. -/
theorem reserves_sessionCourse (host : Host) (fuel : Nat) (sources : List Source)
    (hst : st.env.Reserves counting) :
    ∀ m ∈ sessionCourse host fuel sources st, m.Reserves counting := by
  induction sources generalizing st with
  | nil => simp [sessionCourse]
  | cons source sources ih =>
    have first := source.reserving_course host fuel hst
    unfold sessionCourse
    refine List.forall_mem_append.2 ⟨first.moments, ?_⟩
    cases hrun : source.run host fuel st with
    | ok v mid | failed f mid =>
      rw [hrun] at first
      exact ih (first.state mid rfl)
    | broken reason => simp

/-! ## Refusals -/

theorem declare_everyName {span : Span} {e : Expr} {v : Value} {st' : State} {fuel : Nat}
    (immutable : Bool) (value : evalExpr host fuel e st = .ok v st') :
    runStmt host (fuel + 1) (.at span (.declare everyName e immutable)) st =
      .failed { cause := .reserved .variable, span := some span } st' := by
  simp [runStmt, perform, declare, Exec.within_apply, Exec.bind_apply, value, Exec.bindings,
    Environment.declare, Outcome.refault, Fault.within, Fault.Cause.ofRefusal]

theorem defineFunction_everyName (fuel : Nat) (span : Span) (params : List String)
    (body : List Stmt) (st : State) :
    runStmt host (fuel + 1) (.at span (.function everyName params body)) st =
      .failed { cause := .reserved .function, span := some span } st := by
  simp [runStmt, perform, Exec.within_apply, Exec.bind_apply, Exec.bindings,
    Environment.defineFunction, Outcome.refault, Fault.within]

/-- The arguments are evaluated before the parameters are bound. -/
theorem call_of_everyName_mem {fuel : Nat} {span : Span} {name : String} {arguments : List Expr}
    {f : Function} {values : List Value} {st' : State} (found : st.env.function? name = some f)
    (param : everyName ∈ f.params) (arity : arguments.length ≤ f.params.length)
    (args : (evaluator host fuel).all arguments st = .ok values st') :
    evalExpr host (fuel + 1) (.at span (.call name arguments)) st =
      .failed { cause := .reserved .parameter, span := some span } st' := by
  have fits : ¬ f.params.length < arguments.length := Nat.not_lt.2 arity
  simp only [evaluator] at args
  simp [evalExpr, valueOf, call, Exec.within_apply, Exec.bind_apply, Exec.get, found, fits, args,
    callFrame_of_mem param, Exec.ofExcept, Exec.fail, Outcome.refault, Fault.within]

/-! ## The law of the reserved name -/

theorem reserves_initial : State.initial.env.Reserves False :=
  ⟨by rintro _ ⟨⟩, .empty, rfl⟩

/-- A loop is not refused its counter. -/
theorem setCounter_of_reserves (h : st.env.Reserves counting) (x : Float) :
    ∃ st', setCounter everyName x st = .ok () st' ∧
      st'.env.globals.lookup everyName = some (.number x) := by
  have mutable : st.env.globals.isImmutable everyName = false := by
    unfold Scope.isImmutable
    split
    · next b hb => exact (h.globals b hb).2
    · rfl
  let globals := st.env.globals.define everyName (.number x) false
  refine ⟨{ st with env := { st.env with globals } }, ?_, ?_⟩
  · simp [setCounter, Exec.bindings, Environment.setGlobal, mutable, globals]
  · simp [Scope.lookup, globals, Scope.find?_define]

/-- At every moment of a session that starts afresh, no frame binds the name of all bindings,
no function has it, and it is a global only if a loop with this counter is in progress. `let`,
`make` and `func` refuse it, and so does a call of a function with such a parameter. A
counting loop does not: it binds its counter at any of these moments, whatever its name. -/
theorem the_reserved_name_is_bound_only_as_a_counter (host : Host) (fuel : Nat) :
    (∀ sources, ∀ m ∈ sessionCourse host fuel sources State.initial,
      (∀ frame ∈ m.state.env.frames, frame.contains everyName = false) ∧
      m.state.env.function? everyName = none ∧
      (m.state.env.globals.contains everyName = true → .loop everyName ∈ m.inProgress) ∧
      ∀ x, ∃ st, setCounter everyName x m.state = .ok () st ∧
        st.env.globals.lookup everyName = some (.number x)) ∧
    (∀ span e immutable st v st', evalExpr host fuel e st = .ok v st' →
      runStmt host (fuel + 1) (.at span (.declare everyName e immutable)) st =
        .failed { cause := .reserved .variable, span := some span } st') ∧
    (∀ span params body st,
      runStmt host (fuel + 1) (.at span (.function everyName params body)) st =
        .failed { cause := .reserved .function, span := some span } st) ∧
    (∀ span name arguments st f values st', st.env.function? name = some f →
      everyName ∈ f.params → arguments.length ≤ f.params.length →
      (evaluator host fuel).all arguments st = .ok values st' →
      evalExpr host (fuel + 1) (.at span (.call name arguments)) st =
        .failed { cause := .reserved .parameter, span := some span } st') ∧
    ∀ binder, (Fault.Cause.reserved binder).code.label = "E2004" := by
  refine ⟨fun sources m hm => ?_, fun _ _ immutable _ _ _ => declare_everyName immutable,
    defineFunction_everyName fuel, fun _ _ _ _ _ _ _ => call_of_everyName_mem, fun _ => rfl⟩
  have reserves := reserves_sessionCourse host fuel sources reserves_initial m hm
  refine ⟨fun frame hframe => ?_, reserves.functions, fun bound => ?_,
    setCounter_of_reserves reserves⟩
  · cases hb : frame.find? everyName with
    | none => simp [Scope.contains, hb]
    | some b => exact (reserves.frames frame hframe b hb).1.elim
  · obtain ⟨b, hb⟩ := Option.isSome_iff_exists.1 bound
    exact (reserves.globals b hb).1.resolve_left id

/-- The loop `loop (all, 1, 1) { show all }` binds the name, and is in progress then; `let all`
and a call of a function with this parameter are refused. -/
theorem a_loop_with_the_reserved_counter_is_in_progress :
    let host : Host := ⟨Files.inMemory, none⟩
    let one : Expr := .at ⟨10, 11⟩ (.number 1)
    let f : Function := ⟨"f", ["all"], []⟩
    let st : State := { State.initial with env := ⟨Scope.empty, [], [("f", f)]⟩ }
    (∃ m ∈ sessionCourse host 8 [⟨"loop (all, 1, 1) \x7b show all \x7d", none⟩] State.initial,
      m.state.env.globals.contains everyName = true ∧ .loop everyName ∈ m.inProgress) ∧
    runStmt host 9 (.at ⟨0, 11⟩ (.declare "all" one false)) State.initial =
      .failed { cause := .reserved .variable, span := some ⟨0, 11⟩ } State.initial ∧
    evalExpr host 9 (.at ⟨8, 12⟩ (.call "f" [one])) st =
      .failed { cause := .reserved .parameter, span := some ⟨8, 12⟩ } st := by
  intro host one f st
  have bound : ∃ m ∈ sessionCourse host 8 [⟨"loop (all, 1, 1) \x7b show all \x7d", none⟩]
      State.initial, m.state.env.globals.contains everyName = true := by decide +kernel
  obtain ⟨moments, declared, -, called, -⟩ :=
    the_reserved_name_is_bound_only_as_a_counter host 8
  obtain ⟨m, hm, contains⟩ := bound
  obtain ⟨-, -, counts, -⟩ := moments _ m hm
  exact ⟨⟨m, hm, contains, counts contains⟩, declared _ one _ _ _ _ rfl,
    called _ _ [one] st f _ _ rfl (by simp [f, everyName]) (by simp [f]) rfl⟩

end BraceScript
