-- The course of a run: every moment at which a node begins or ends, in order,
-- with what is in progress then. And the trail of a fault: what was in
-- progress where it arose.
import BraceScript.Proofs.Run.Threads

namespace BraceScript

variable {α : Type}

/-- A moment of a run: the state, and what is in progress (the innermost first). -/
structure Moment where
  state : State
  inProgress : List Setting

namespace Moment

/-- A moment at which nothing is in progress. -/
def of (st : State) : Moment := ⟨st, []⟩

def inside (settings : List Setting) (m : Moment) : Moment :=
  { m with inProgress := m.inProgress ++ settings }

@[simp] theorem inside_nil (m : Moment) : m.inside [] = m := by
  simp [inside]

@[simp] theorem inside_inside (m : Moment) (settings more : List Setting) :
    (m.inside settings).inside more = m.inside (settings ++ more) := by
  simp [inside]

end Moment

/-- The moment at which something comes to its end, unless it is broken off. -/
def Outcome.ending : Outcome α → List Moment
  | .ok _ st => [.of st]
  | .failed _ st => [.of st]
  | .broken _ => []

@[simp] theorem Outcome.ending_refault (g : Fault → Fault) (o : Outcome α) :
    (o.refault g).ending = o.ending := by
  cases o <;> rfl

@[simp] theorem Outcome.ending_joining (f : Fault) (o : Outcome α) :
    (o.joining f).ending = o.ending := by
  cases o <;> rfl

/-! ## One node -/

/-- The nodes that a node runs. -/
def visits (host : Host) : Nat → Node → State → List Visit
  | 0, _, _ => []
  | fuel + 1, .expr e, st => (evaluator host fuel).visitValue e.form st
  | fuel + 1, .stmt s, st => (evaluator host fuel).visitForm host fuel s.form st
  | _ + 1, .text _, _ => []

/-- The moments of some visits, given those of each. -/
def momentsOf (moments : Node → State → List Moment) (vs : List Visit) : List Moment :=
  vs.flatMap fun v => (moments v.node v.state).map (Moment.inside v.settings)

theorem momentsOf_append (moments : Node → State → List Moment) (vs ws : List Visit) :
    momentsOf moments (vs ++ ws) = momentsOf moments vs ++ momentsOf moments ws :=
  List.flatMap_append

theorem momentsOf_inside (moments : Node → State → List Moment) (s : Setting) (vs : List Visit) :
    momentsOf moments (vs.map (Visit.inside s)) =
      (momentsOf moments vs).map (Moment.inside [s]) := by
  unfold momentsOf
  rw [List.flatMap_map, List.map_flatMap]
  refine congrArg (vs.flatMap ·) (funext fun v => ?_)
  rw [List.map_map]
  exact List.map_congr_left fun m _ => by simp [Visit.inside]

theorem momentsOf_single (moments : Node → State → List Moment) (n : Node) (st : State) :
    momentsOf moments [⟨n, st, []⟩] = moments n st := by
  have same : Moment.inside [] = id := funext Moment.inside_nil
  simp [momentsOf, same]

/-- All moments of running a node. -/
def course (host : Host) : Nat → Node → State → List Moment
  | 0, n, st => .of st :: ((evaluator host 0).run n st).ending
  | fuel + 1, n, st =>
    .of st :: momentsOf (course host fuel) (visits host (fuel + 1) n st) ++
      ((evaluator host (fuel + 1)).run n st).ending

/-- The node fails if it is run with this bound. -/
def Visit.fails (host : Host) (fuel : Nat) (v : Visit) : Bool :=
  match (evaluator host fuel).run v.node v.state with
  | .failed _ _ => true
  | _ => false

/-- What is in progress (the innermost first) where the fault arises that a node comes to:
in the first node that it runs and that fails, or, if there is none, in itself. -/
def trail (host : Host) : Nat → Node → State → List Setting
  | 0, _, _ => []
  | fuel + 1, n, st =>
    match (visits host (fuel + 1) n st).find? (Visit.fails host fuel) with
    | some v => trail host fuel v.node v.state ++ v.settings
    | none => []

/-! ## Whole sources -/

/-- A source text, and the file that it came from if there is one. -/
structure Source where
  text : String
  origin : Option String

namespace Source

def run (host : Host) (fuel : Nat) (source : Source) : Exec Unit :=
  runSource host fuel source.text source.origin

/-- The state in which the statements of a source begin. -/
def enter (host : Host) (source : Source) (st : State) : State :=
  match source.origin with
  | none => st
  | some name => { st with includes := host.resolve st.includes name :: st.includes }

/-- The statements that a source runs. -/
def visits (host : Host) (fuel : Nat) (source : Source) (st : State) : List Visit :=
  (evaluator host fuel).visitText source.text (source.enter host st)

/-- All moments of running a source. -/
def course (host : Host) (fuel : Nat) (source : Source) (st : State) : List Moment :=
  .of st :: momentsOf (BraceScript.course host fuel) (source.visits host fuel st) ++
    (source.run host fuel st).ending

/-- What is in progress where the fault arises that a source comes to. -/
def trail (host : Host) (fuel : Nat) (source : Source) (st : State) : List Setting :=
  match (source.visits host fuel st).find? (Visit.fails host fuel) with
  | some v => BraceScript.trail host fuel v.node v.state ++ v.settings
  | none => []

end Source

/-- All moments of running sources one after the other, each on the state that the one
before has left, whether that has failed or not. -/
def sessionCourse (host : Host) (fuel : Nat) : List Source → State → List Moment
  | [], _ => []
  | source :: sources, st =>
    source.course host fuel st ++
      match source.run host fuel st with
      | .ok _ st | .failed _ st => sessionCourse host fuel sources st
      | .broken _ => []

/-! ## The visits follow on each other -/

/-- What a node does, without its own place on the fault that it comes to. -/
def Evaluator.runUnplaced (host : Host) (ev : Evaluator) (rounds : Nat) : Node → Exec Unit
  | .expr e => fun st => (valueOf host ev e.form st).void
  | .stmt s => fun st => (perform host ev rounds s.span s.form st).void
  | .text source => ev.run (.text source)

theorem threads_runUnplaced (host : Host) (fuel : Nat) (n : Node) (st : State) :
    Threads host (evaluator host fuel) (.node n) st (visits host (fuel + 1) n st)
      ((evaluator host fuel).runUnplaced host fuel n st) := by
  cases n with
  | expr e =>
    obtain ⟨span, form⟩ := e
    exact threads_valueOf form fun q hq => hq
  | stmt s =>
    obtain ⟨span, form⟩ := s
    exact threads_perform span fuel form
  | text source =>
    simp only [Evaluator.runUnplaced, Evaluator.run]
    cases hp : parse source with
    | ok ss => exact .done
    | error e =>
      refine .raise (f := Fault.ofSyntaxError e) rfl ⟨rfl, rfl, ?_⟩
      simp [Fault.ofSyntaxError, Node.places, Node.span, hp]

/-- The place of a node is put on the faults that it comes to. -/
theorem run_eq_refault (host : Host) (fuel : Nat) (n : Node) (st : State) :
    (evaluator host (fuel + 1)).run n st =
      ((evaluator host fuel).runUnplaced host fuel n st).refault (·.within n.span) := by
  cases n with
  | expr e =>
    obtain ⟨span, form⟩ := e
    simp only [Evaluator.runUnplaced, Expr.form, Evaluator.run, evaluator, evalExpr,
      Exec.bind_apply, Exec.within_apply]
    cases valueOf host ⟨evalExpr host fuel, runStmt host fuel⟩ form st <;> rfl
  | stmt s =>
    obtain ⟨span, form⟩ := s
    simp only [Evaluator.runUnplaced, Stmt.span, Stmt.form, Evaluator.run, evaluator, runStmt,
      Exec.bind_apply, Exec.within_apply]
    cases perform host ⟨evalExpr host fuel, runStmt host fuel⟩ fuel span form st <;> rfl
  | text source =>
    simp only [Evaluator.runUnplaced, Evaluator.run]
    cases parse source <;> rfl

theorem threads_run (host : Host) (fuel : Nat) (n : Node) (st : State) :
    ∃ o, Threads host (evaluator host fuel) (.node n) st (visits host (fuel + 1) n st) o ∧
      (evaluator host (fuel + 1)).run n st = o.refault (·.within n.span) :=
  ⟨_, threads_runUnplaced host fuel n st, run_eq_refault host fuel n st⟩

/-- The file of a source is done with at its end. -/
def Source.leave (source : Source) (st : State) : State :=
  match source.origin with
  | none => st
  | some _ => { st with includes := st.includes.tail }

theorem Source.leave_enter (host : Host) (source : Source) (st : State) :
    source.leave (source.enter host st) = st := by
  unfold leave enter
  cases source.origin <;> rfl

theorem Source.threads_run (host : Host) (fuel : Nat) (source : Source) (st : State) :
    ∃ o, Threads host (evaluator host fuel) (.text source.text) (source.enter host st)
        (source.visits host fuel st) o ∧
      source.run host fuel st = o.change source.leave := by
  refine ⟨_, threads_runText source.text, ?_⟩
  unfold Source.run runSource runText
  cases parse source.text with
  | error e =>
    simp only [Outcome.void, Outcome.change, leave_enter]
  | ok ss =>
    unfold enter leave
    cases source.origin with
    | none =>
      simp only [Exec.bind_apply]
      cases (evaluator host fuel).block ss st <;> rfl
    | some name =>
      dsimp only
      rw [Exec.get_bind, Exec.withFile_apply, Exec.bind_apply]
      cases (evaluator host fuel).block ss
        { st with includes := host.resolve st.includes name :: st.includes } <;> rfl

end BraceScript
