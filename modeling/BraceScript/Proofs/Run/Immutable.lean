-- A global that is bound for good stays bound, and to the same value, through
-- everything that a run can do, with one exception. A counting loop unbinds
-- its counter at its end, and nothing stops its body from binding the counter
-- for good in the meantime.
import BraceScript.Proofs.Environment.Changes
import BraceScript.Proofs.Run.Course

namespace BraceScript

variable {α : Type}

/-! ## Changes of the bindings -/

/-- The global is bound for good, to this value. -/
def Environment.Fixes (e : Environment) (x : String) (v : Value) : Prop :=
  e.globals.find? x = some ⟨v, true⟩

variable {e e' : Environment} {x : String} {v : Value}

theorem Environment.Fixes.isImmutable (h : e.Fixes x v) : e.globals.isImmutable x = true := by
  unfold Scope.isImmutable
  rw [h]

namespace Environment.Fixes

/-- An operation on the bindings leaves alone what is bound for good. -/
theorem changes {op : Operation} (h : e.Fixes x v) (c : op.Changes e e') : e'.Fixes x v :=
  c.immutable .globals x _ h rfl

theorem ne_of_setGlobal {name : String} {w : Value} (h : e.Fixes x v)
    (hs : e.setGlobal name w = .ok e') : x ≠ name := by
  rintro rfl
  simp [Environment.setGlobal, h.isImmutable] at hs

theorem unsetGlobal {name : String} (h : e.Fixes x v) (ne : x ≠ name) :
    (e.unsetGlobal name).Fixes x v := by
  unfold Fixes Environment.unsetGlobal
  rw [Scope.find?_without, if_neg ne]
  exact h

end Environment.Fixes

/-- No change between two visits touches what is bound for good. -/
theorem Change.fixes {home : Home} {st st' : State} (c : Change home st st')
    (h : st.env.Fixes x v) : st'.env.Fixes x v := by
  cases c with
  | heap | print => exact h
  | declare hd => exact h.changes (Operation.changes_declare hd)
  | assign ha => exact h.changes (Operation.changes_assign ha)
  | setGlobal _ hs => exact h.changes (Operation.changes_setGlobal hs)
  | deleteVariable hd => exact h.changes (Operation.changes_deleteVariable hd)
  | defineFunction _ hd => exact h.changes (Operation.changes_defineFunction hd)
  | deleteFunction hd => exact h.changes (Operation.changes_deleteFunction hd)

/-! ## The order of moments -/

/-- What is bound for good at the earlier moment still is at the later one, but for the
counters of the loops in progress. -/
def Moment.Keeps (a b : Moment) : Prop :=
  ∀ x v, .loop x ∉ a.inProgress → a.state.env.Fixes x v → b.state.env.Fixes x v

theorem Moment.Keeps.inside {a b : Moment} (h : a.Keeps b) (settings more : List Setting) :
    (a.inside settings).Keeps (b.inside more) := by
  intro x v hx hfix
  refine h x v (fun hin => hx ?_) hfix
  exact List.mem_append_left _ hin

/-- Nothing that is bound for good is lost between any two of these moments, the state before
them and the state that the outcome leaves. -/
def Orderly (st : State) (moments : List Moment) (o : Outcome α) : Prop :=
  (Moment.of st :: (moments ++ o.ending)).Pairwise Moment.Keeps

variable {st mid : State} {l k : List Moment} {o : Outcome α} {f : Fault}

theorem orderly_nil (h : ∀ m ∈ o.ending, (Moment.of st).Keeps m) : Orderly st [] o := by
  refine List.pairwise_cons.2 ⟨by simpa using h, ?_⟩
  cases o <;> simp [Outcome.ending]

theorem Orderly.congr {β : Type} {o' : Outcome β} (h : Orderly st l o)
    (heq : o'.ending = o.ending) : Orderly st l o' := by
  unfold Orderly
  rw [heq]
  exact h

/-- What comes before a moment at which nothing is in progress goes with what comes after it. -/
theorem pairwise_keeps_through (h : (Moment.of st :: (l ++ [.of mid])).Pairwise Moment.Keeps)
    (h' : (Moment.of mid :: k).Pairwise Moment.Keeps) :
    (Moment.of st :: (l ++ k)).Pairwise Moment.Keeps := by
  rw [← List.cons_append, List.pairwise_append] at h
  obtain ⟨before, -, cross⟩ := h
  obtain ⟨onward, after⟩ := List.pairwise_cons.1 h'
  rw [← List.cons_append, List.pairwise_append]
  refine ⟨before, after, fun a ha b hb x v hx hfix => ?_⟩
  have atMid := cross a ha (.of mid) (by simp) x v hx hfix
  exact onward b hb x v (by simp [Moment.of]) atMid

theorem Orderly.append (h : (Moment.of st :: (l ++ [.of mid])).Pairwise Moment.Keeps)
    (h' : Orderly mid k o) : Orderly st (l ++ k) o := by
  unfold Orderly
  rw [List.append_assoc]
  exact pairwise_keeps_through h h'

/-- A part of a run inside of something: if this loses nothing when it begins, when it ends
and from its beginning to its end, nothing is lost. -/
theorem Orderly.within {settings : List Setting} {g : State → State} (h : Orderly mid l o)
    (begins : ∀ m, (Moment.of mid).Keeps m → (Moment.of st).Keeps (m.inside settings))
    (ends : ∀ (a : Moment) e, a.Keeps (.of e) → (a.inside settings).Keeps (.of (g e)))
    (whole : ∀ e, (Moment.of mid).Keeps (.of e) → (Moment.of st).Keeps (.of (g e))) :
    Orderly st (l.map (Moment.inside settings)) (o.change g) := by
  obtain ⟨first, others⟩ := List.pairwise_cons.1 h
  obtain ⟨inner, -, last⟩ := List.pairwise_append.1 others
  have hend : ∀ m ∈ (o.change g).ending, ∃ e, m = .of (g e) ∧ .of e ∈ o.ending := by
    intro m hm
    cases o with
    | ok v e => exact ⟨e, by simpa [Outcome.change, Outcome.ending] using hm⟩
    | failed f e => exact ⟨e, by simpa [Outcome.change, Outcome.ending] using hm⟩
    | broken reason => simp [Outcome.change, Outcome.ending] at hm
  refine List.pairwise_cons.2 ⟨fun m hm => ?_, List.pairwise_append.2 ⟨?_, ?_, ?_⟩⟩
  · rcases List.mem_append.1 hm with hm | hm
    · obtain ⟨m', hm', rfl⟩ := List.mem_map.1 hm
      exact begins m' (first m' (by simp [hm']))
    · obtain ⟨e, rfl, he⟩ := hend m hm
      exact whole e (first _ (by simp [he]))
  · exact inner.map _ fun a b hab => hab.inside _ _
  · cases o <;> simp [Outcome.change, Outcome.ending]
  · intro a ha b hb
    obtain ⟨a', ha', rfl⟩ := List.mem_map.1 ha
    obtain ⟨e, rfl, he⟩ := hend b hb
    exact ends a' e (last a' ha' _ he)

/-- What lies inside of a call or a file changes no global. -/
theorem Orderly.withinSame (settings : List Setting) {g : State → State} (h : Orderly mid l o)
    (same : mid.env.globals = st.env.globals) (leave : ∀ e, (g e).env.globals = e.env.globals) :
    Orderly st (l.map (Moment.inside settings)) (o.change g) := by
  have here : ∀ x v, (Moment.of st).state.env.Fixes x v → (Moment.of mid).state.env.Fixes x v := by
    intro x v hfix
    unfold Environment.Fixes Moment.of
    rw [same]
    exact hfix
  have there : ∀ e x v, (Moment.of e).state.env.Fixes x v →
      (Moment.of (g e)).state.env.Fixes x v := by
    intro e x v hfix
    unfold Environment.Fixes Moment.of
    rw [leave]
    exact hfix
  refine h.within (fun m hm x v _ hfix => ?_) (fun a e hae x v hx hfix => ?_)
    (fun e he x v hx hfix => ?_)
  · exact hm x v (by simp [Moment.of]) (here x v hfix)
  · exact there e x v (hae x v (fun hin => hx (List.mem_append_left _ hin)) hfix)
  · exact there e x v (he x v hx (here x v hfix))

/-- A loop in progress is about its counter only. -/
theorem Orderly.withinLoop {counter : String} {w : Value} {env : Environment}
    (h : Orderly { st with env } l o) (hset : st.env.setGlobal counter w = .ok env) :
    Orderly st (l.map (Moment.inside [.loop counter]))
      (o.change fun st => { st with env := st.env.unsetGlobal counter }) := by
  refine h.within (fun m hm x v _ hfix => ?_) (fun a e hae x v hx hfix => ?_)
    (fun e he x v hx hfix => ?_)
  · exact hm x v (by simp [Moment.of]) (hfix.changes (Operation.changes_setGlobal hset))
  · have ne : x ≠ counter := by
      rintro rfl
      exact hx (by simp [Moment.inside])
    have atEnd := hae x v (fun hin => hx (List.mem_append_left _ hin)) hfix
    exact Environment.Fixes.unsetGlobal atEnd ne
  · have atEnd := he x v hx (hfix.changes (Operation.changes_setGlobal hset))
    exact Environment.Fixes.unsetGlobal atEnd (Environment.Fixes.ne_of_setGlobal hfix hset)

/-! ## Nodes and sources -/

variable {host : Host} {ev : Evaluator} {home : Home} {vs ws : List Visit}

/-- If each visit is in order, visits that follow on each other are. -/
theorem Threads.orderly {moments : Node → State → List Moment} {o : Outcome Unit}
    (each : ∀ n st, Orderly st (moments n st) (ev.run n st))
    (h : Threads host ev home st vs o) : Orderly st (momentsOf moments vs) o := by
  induction h with
  | done => exact orderly_nil (by simp [Outcome.ending, Moment.Keeps])
  | change c =>
    apply orderly_nil
    rintro m hm x v - hfix
    simp only [Outcome.ending, List.mem_singleton] at hm
    subst hm
    exact c.fixes hfix
  | raise => exact orderly_nil (by simp [Outcome.ending, Moment.Keeps])
  | stop => exact orderly_nil (by simp [Outcome.ending])
  | @visit home st n _ =>
    rw [momentsOf_single]
    exact each n st
  | andThen _ _ ih ih' =>
    rw [momentsOf_append]
    exact Orderly.append ih ih'
  | @joined home n st mid f vs o _ fails _ ih =>
    have first := each n st
    rw [fails] at first
    rw [← List.singleton_append, momentsOf_append, momentsOf_single]
    exact (Orderly.append first ih).congr (by simp)
  | call _ _ _ _ ih ih' =>
    rw [momentsOf_append, momentsOf_inside]
    exact Orderly.append ih (ih'.withinSame _ rfl fun _ => rfl)
  | @file _ st _ path _ vs o _ _ _ _ _ ih =>
    rw [momentsOf_inside]
    have inner : Orderly st ((momentsOf moments vs).map (Moment.inside [.file path]))
        (o.change fun st => { st with includes := st.includes.tail }) :=
      ih.withinSame _ rfl fun _ => rfl
    exact inner.congr (Outcome.ending_refault _ _)
  | loop hset _ ih =>
    rw [momentsOf_inside]
    exact ih.withinLoop hset

/-- The state before and the one after can be told twice. -/
theorem Orderly.bounded (h : Orderly st l o) : Orderly st (.of st :: l ++ o.ending) o := by
  have refl (m : Moment) : m.Keeps m := fun _ _ _ hfix => hfix
  obtain ⟨first, others⟩ := List.pairwise_cons.1 h
  obtain ⟨inner, last, cross⟩ := List.pairwise_append.1 others
  refine List.pairwise_cons.2 ⟨?_, List.pairwise_append.2 ⟨h, last, ?_⟩⟩
  · intro m hm
    simp only [List.cons_append, List.mem_cons, List.mem_append] at hm
    rcases hm with rfl | (hm | hm) | hm
    · exact refl _
    · exact first m (by simp [hm])
    · exact first m (by simp [hm])
    · exact first m (by simp [hm])
  · intro a ha b hb
    simp only [List.cons_append, List.mem_cons, List.mem_append] at ha
    rcases ha with rfl | ha | ha
    · exact first b (by simp [hb])
    · exact cross a ha b hb
    · cases o <;> simp only [Outcome.ending, List.mem_singleton, List.not_mem_nil] at ha hb
      · rw [ha, hb]; exact refl _
      · rw [ha, hb]; exact refl _

/-- Running a node loses nothing that is bound for good. -/
theorem orderly_course (host : Host) (fuel : Nat) (n : Node) (st : State) :
    Orderly st (course host fuel n st) ((evaluator host fuel).run n st) := by
  induction fuel generalizing n st with
  | zero =>
    have still : ∀ m ∈ ((evaluator host 0).run n st).ending, m = .of st := by
      cases n with
      | text source =>
        cases hp : parse source <;> simp [Evaluator.run, hp, Outcome.ending]
      | _ => simp [Evaluator.run, evaluator, evalExpr, runStmt, Exec.bind_apply, Exec.stop,
          Outcome.ending]
    exact (orderly_nil fun m hm x v _ hfix => by rwa [still m hm]).bounded
  | succ fuel ih =>
    obtain ⟨o, threads, hrun⟩ := threads_run host fuel n st
    have inner : Orderly st (momentsOf (course host fuel) (visits host (fuel + 1) n st))
        ((evaluator host (fuel + 1)).run n st) :=
      (threads.orderly ih).congr (by rw [hrun]; simp)
    exact inner.bounded

/-- Running a source loses nothing that is bound for good. -/
theorem Source.orderly_course (host : Host) (fuel : Nat) (source : Source) (st : State) :
    Orderly st (source.course host fuel st) (source.run host fuel st) := by
  obtain ⟨o, threads, hrun⟩ := source.threads_run host fuel st
  have inner := threads.orderly (BraceScript.orderly_course host fuel)
  have same : Moment.inside [] = id := funext Moment.inside_nil
  have entered : (source.enter host st).env.globals = st.env.globals := by
    unfold enter
    cases source.origin <;> rfl
  have left : ∀ e, (source.leave e).env.globals = e.env.globals := fun e => by
    unfold leave
    cases source.origin <;> rfl
  have whole := inner.withinSame [] entered left
  rw [same, List.map_id, ← hrun] at whole
  exact whole.bounded

/-- Nor does running sources one after the other. -/
theorem pairwise_sessionCourse (host : Host) (fuel : Nat) (sources : List Source) (st : State) :
    (Moment.of st :: sessionCourse host fuel sources st).Pairwise Moment.Keeps := by
  induction sources generalizing st with
  | nil => simp [sessionCourse]
  | cons source sources ih =>
    have first := source.orderly_course host fuel st
    unfold Orderly at first
    unfold sessionCourse
    cases hrun : source.run host fuel st with
    | ok v mid =>
      rw [hrun] at first
      exact pairwise_keeps_through first (ih mid)
    | failed f mid =>
      rw [hrun] at first
      exact pairwise_keeps_through first (ih mid)
    | broken reason =>
      rw [hrun] at first
      simpa [Outcome.ending] using first

/-- After a loop that has begun its rounds, its counter is not bound. -/
theorem unbound_after_loop {fuel : Nat} {span : Span} {counter : String} {first last : Expr}
    {body : List Stmt} {st₁ st₂ st₃ : State} {a b : Float}
    (ha : loopBound (evaluator host fuel) first "start" st = .ok a st₁)
    (hb : loopBound (evaluator host fuel) last "end" st₁ = .ok b st₂)
    (hset : setCounter counter a st₂ = .ok () st₃) :
    ∀ m ∈ (runStmt host (fuel + 1) (.at span (.loop counter first last body)) st).ending,
      m.state.env.globals.find? counter = none := by
  have whole : perform host (evaluator host fuel) fuel span (.loop counter first last body) st =
      (countRounds (evaluator host fuel) counter b body fuel a st₃).change
        fun st => { st with env := st.env.unsetGlobal counter } := by
    simp only [perform, countLoop, Exec.bind_apply, ha, hb, hset]
    rfl
  have gone (e : Environment) : (e.unsetGlobal counter).globals.find? counter = none := by
    simp [Environment.unsetGlobal, Scope.find?_without]
  intro m hm
  rw [runStmt, Exec.within_apply, Outcome.ending_refault] at hm
  rw [show Evaluator.mk (evalExpr host fuel) (runStmt host fuel) = evaluator host fuel from rfl,
    whole] at hm
  cases hrounds : countRounds (evaluator host fuel) counter b body fuel a st₃ with
  | ok flow e =>
    simp only [hrounds, Outcome.change, Outcome.ending, List.mem_singleton] at hm
    rw [hm]
    exact gone _
  | failed f e =>
    simp only [hrounds, Outcome.change, Outcome.ending, List.mem_singleton] at hm
    rw [hm]
    exact gone _
  | broken reason => simp [hrounds, Outcome.change, Outcome.ending] at hm

/-- Between any two moments of a session, a global that is bound for good at the earlier one
stays bound for good and to the same value, unless it is the counter of a loop in progress at
the earlier one. The same goes for what a single node runs, so also for the rounds of such a
loop; but the loop itself, once it has begun them, leaves its counter unbound. -/
theorem a_global_bound_for_good_stays_unless_it_counts_a_loop (host : Host) (fuel : Nat) :
    (∀ sources st, (sessionCourse host fuel sources st).Pairwise Moment.Keeps) ∧
    (∀ n st, (course host fuel n st).Pairwise Moment.Keeps) ∧
    ∀ span counter first last body st st₁ st₂ st₃ a b,
      loopBound (evaluator host fuel) first "start" st = .ok a st₁ →
      loopBound (evaluator host fuel) last "end" st₁ = .ok b st₂ →
      setCounter counter a st₂ = .ok () st₃ →
      ∀ m ∈ (runStmt host (fuel + 1) (.at span (.loop counter first last body)) st).ending,
        m.state.env.globals.find? counter = none := by
  refine ⟨fun sources st => ?_, fun n st => ?_, ?_⟩
  · exact (List.pairwise_cons.1 (pairwise_sessionCourse host fuel sources st)).2
  · have whole := (List.pairwise_cons.1 (orderly_course host fuel n st)).2
    exact (List.pairwise_append.1 whole).1
  · intro span counter first last body st st₁ st₂ st₃ a b ha hb hset
    exact unbound_after_loop ha hb hset

/-- The loop `loop (i, 1, 1) { make i = 5 }` binds its counter for good, and at its end the
counter is not bound. -/
theorem a_counter_bound_for_good_is_unbound_behind_its_loop :
    let loop : Stmt := .at ⟨0, 29⟩ (.loop "i" (.at ⟨9, 10⟩ (.number 1)) (.at ⟨12, 13⟩ (.number 1))
      [.at ⟨17, 27⟩ (.declare "i" (.at ⟨26, 27⟩ (.number 5)) true)])
    (∃ m ∈ course ⟨Files.inMemory, none⟩ 3 (.stmt loop) State.initial,
      m.state.env.globals.isImmutable "i" = true) ∧
    ∃ m, (runStmt ⟨Files.inMemory, none⟩ 3 loop State.initial).ending = [m] ∧
      m.state.env.globals.find? "i" = none := by
  intro loop
  have bound : ∃ m ∈ course ⟨Files.inMemory, none⟩ 3 (.stmt loop) State.initial,
      m.state.env.globals.isImmutable "i" = true := by decide +kernel
  have ends : (runStmt ⟨Files.inMemory, none⟩ 3 loop State.initial).ending.length = 1 := by
    decide +kernel
  obtain ⟨m, hm⟩ := List.length_eq_one_iff.1 ends
  obtain ⟨-, -, unbound⟩ :=
    a_global_bound_for_good_stays_unless_it_counts_a_loop ⟨Files.inMemory, none⟩ 2
  exact ⟨bound, m, hm, unbound _ _ _ _ _ _ _ _ _ _ _ rfl rfl rfl m (by rw [hm]; simp)⟩

end BraceScript
