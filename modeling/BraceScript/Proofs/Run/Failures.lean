-- Where a fault comes from. It arises in one node, while others are in
-- progress around it: each of these runs the next one inward. The node in
-- which it arises gives it a place if it has none yet, and none of those
-- around it gives it another one.
import BraceScript.Proofs.Run.Blame

namespace BraceScript

variable {host : Host} {fuel : Nat} {n : Node} {st : State} {f : Fault}

/-! ## Nodes that fail -/

/-- A node that is run from a state, with a bound. -/
structure Attempt where
  bound : Nat
  node : Node
  state : State

namespace Attempt

def outcome (host : Host) (a : Attempt) : Outcome Unit :=
  (evaluator host a.bound).run a.node a.state

/-- What it comes to without its own place on the fault. -/
def unplaced (host : Host) (a : Attempt) : Outcome Unit :=
  (evaluator host (a.bound - 1)).runUnplaced host (a.bound - 1) a.node a.state

/-- The nodes that it runs. -/
def visits (host : Host) (a : Attempt) : List Visit :=
  BraceScript.visits host a.bound a.node a.state

/-- The fault has only just arisen in the node itself, and left the state as it is then:
everything that the node has run went well. -/
structure Raises (host : Host) (a : Attempt) (f : Fault) (st : State) : Prop where
  calm : ∀ v ∈ a.visits host, v.fails host (a.bound - 1) = false
  unplaced : a.unplaced host = .failed f st
  origin : f.origin = none
  notes : f.notes = []

end Attempt

/-- The nodes that fail one inside of the other (the innermost first) when a node does: each of
them is the first one to fail among those that the next one runs. -/
def failing (host : Host) : Nat → Node → State → List Attempt
  | 0, n, st => [⟨0, n, st⟩]
  | fuel + 1, n, st =>
    match (visits host (fuel + 1) n st).find? (Visit.fails host fuel) with
    | some v => failing host fuel v.node v.state ++ [⟨fuel + 1, n, st⟩]
    | none => [⟨fuel + 1, n, st⟩]

/-- The same for a whole source. A text that is no program fails by itself, before the file that
it came from is in progress. -/
def Source.failing (host : Host) (fuel : Nat) (source : Source) (st : State) : List Attempt :=
  match parse source.text with
  | .error _ => [⟨fuel, .text source.text, st⟩]
  | .ok _ =>
    match (source.visits host fuel st).find? (Visit.fails host fuel) with
    | some v => BraceScript.failing host fuel v.node v.state
    | none => []

/-! ## Along the nodes that fail -/

/-- A text that is no program fails by itself. -/
theorem raises_text (host : Host) {source : String} {e : SyntaxError}
    (h : parse source = .error e) (bound : Nat) (st : State) :
    Attempt.Raises host ⟨bound, .text source, st⟩ (.ofSyntaxError e) st ∧
      (Attempt.outcome host ⟨bound, .text source, st⟩).fault? = some (.ofSyntaxError e) ∧
      (Fault.ofSyntaxError e).within (Node.text source).span = .ofSyntaxError e := by
  refine ⟨⟨?_, ?_, rfl, rfl⟩, ?_, rfl⟩
  · cases bound <;> exact fun v hv => absurd hv List.not_mem_nil
  · simp only [Attempt.unplaced, Evaluator.runUnplaced, Evaluator.run, h]
  · simp only [Attempt.outcome, Evaluator.run, h, Outcome.fault?]

/-- What is true of a fault where it arises, and stays true from one failing node to the next one
around it, is true of it where it comes out. -/
theorem failing_induction (host : Host)
    {motive : Attempt → Fault → Attempt → List Attempt → Fault → State → Prop}
    (alone : ∀ {a g mid}, a.Raises host g mid →
      (a.outcome host).fault? = some (g.within a.node.span) →
      motive a (g.within a.node.span) a [] g mid)
    (outward : ∀ {fuel n st f last v g inner around raised mid},
      (evaluator host fuel).runUnplaced host fuel n st = .failed f last →
      Inherits host (evaluator host fuel) (.node n) (Visit.fails host fuel)
        (visits host (fuel + 1) n st) f v g →
      motive ⟨fuel, v.node, v.state⟩ g inner around raised mid →
      motive ⟨fuel + 1, n, st⟩ (f.within n.span) inner (around ++ [⟨fuel + 1, n, st⟩]) raised mid)
    (fuel : Nat) {n : Node} {st : State} {f : Fault}
    (failed : ((evaluator host fuel).run n st).fault? = some f) :
    ∃ inner around raised mid, failing host fuel n st = inner :: around ∧
      motive ⟨fuel, n, st⟩ f inner around raised mid := by
  induction fuel generalizing n st f with
  | zero =>
    cases n with
    | text source =>
      cases hp : parse source with
      | ok ss => simp [Evaluator.run, hp, Outcome.fault?] at failed
      | error e =>
        obtain ⟨raises, outcome, within⟩ := raises_text host hp 0 st
        obtain rfl : f = .ofSyntaxError e := Option.some.inj (failed.symm.trans outcome)
        have holds := alone raises (by rw [outcome, within])
        rw [within] at holds
        exact ⟨_, _, _, _, rfl, holds⟩
    | _ => simp [Evaluator.run, evaluator, evalExpr, runStmt, Exec.bind_apply, Exec.stop,
        Outcome.fault?] at failed
  | succ fuel ih =>
    obtain ⟨last, hrun⟩ := Outcome.fault?_eq_some.1 failed
    rw [run_eq_refault] at hrun
    obtain ⟨g, rfl, unplaced⟩ := Outcome.refault_eq_failed hrun
    rcases (threads_runUnplaced host fuel n st).blame (tells_fails host fuel) unplaced with
      ⟨v, g₀, inherits⟩ | ⟨calm, _, ⟨⟩, raised⟩
    · obtain ⟨after, hv⟩ := inherits.run
      obtain ⟨inner, around, raised, mid, hfailing, holds⟩ := ih (by rw [hv]; rfl)
      refine ⟨inner, _, raised, mid, ?_, outward unplaced inherits holds⟩
      simp [failing, inherits.first, hfailing]
    · have raises : Attempt.Raises host ⟨fuel + 1, n, st⟩ g last := by
        refine ⟨fun v hv => ?_, unplaced, raised.origin, raised.notes⟩
        simpa using List.find?_eq_none.1 calm v hv
      exact ⟨_, _, _, _, by simp [failing, calm], alone raises failed⟩

/-- A source fails because it is no program, or because the first one that fails does of the
nodes that it runs. -/
theorem Source.failing_cases {source : Source}
    (failed : (source.run host fuel st).fault? = some f) :
    (∃ e, parse source.text = .error e ∧ f = .ofSyntaxError e ∧
      source.failing host fuel st = [⟨fuel, .text source.text, st⟩]) ∨
    ∃ ss v g, parse source.text = .ok ss ∧
      Inherits host (evaluator host fuel) (.text source.text) (Visit.fails host fuel)
        (source.visits host fuel st) f v g ∧
      source.failing host fuel st = BraceScript.failing host fuel v.node v.state := by
  cases hp : parse source.text with
  | error e =>
    simp only [Source.run, runSource, hp, Outcome.fault?, Option.some.injEq] at failed
    exact .inl ⟨e, rfl, failed.symm, by simp [Source.failing, hp]⟩
  | ok ss =>
    obtain ⟨o, threads, hrun⟩ := source.threads_run host fuel st
    obtain ⟨last, ran⟩ := Outcome.fault?_eq_some.1 failed
    rw [hrun] at ran
    obtain ⟨last, ran⟩ := Outcome.change_eq_failed ran
    rcases threads.blame (tells_fails host fuel) ran with ⟨v, g, inherits⟩ | ⟨-, _, ⟨⟩, -⟩
    exact .inr ⟨ss, v, g, rfl, inherits, by simp [Source.failing, hp, inherits.first]⟩

/-! ## What becomes of the place -/

/-- The fault is the one that arises in the innermost of the nodes, at the place that it had
then or else that of the node, and it comes out of all of them with this place. -/
structure Carried (host : Host) (f : Fault) (inner : Attempt) (around : List Attempt)
    (raised : Fault) (st : State) : Prop where
  raises : inner.Raises host raised st
  cause : f.cause = raised.cause
  span : f.span = some (raised.span.getD inner.node.span)
  throughout : ∀ a ∈ inner :: around, ∃ g, (a.outcome host).fault? = some g ∧
    g.cause = f.cause ∧ g.span = f.span

variable {inner : Attempt} {around : List Attempt} {raised : Fault}

theorem Carried.imp {g : Fault} (h : Carried host g inner around raised st)
    (cause : f.cause = g.cause) (span : f.span = g.span) :
    Carried host f inner around raised st where
  raises := h.raises
  cause := cause.trans h.cause
  span := span.trans h.span
  throughout := by
    rw [cause, span]
    exact h.throughout

/-- One more node around the others. -/
theorem Carried.outward {a : Attempt} {g : Fault} (h : Carried host g inner around raised st)
    (failed : (a.outcome host).fault? = some f) (cause : f.cause = g.cause)
    (span : f.span = g.span) : Carried host f inner (around ++ [a]) raised st :=
  { h.imp cause span with
    throughout := by
      rw [← List.cons_append]
      exact List.forall_mem_append.2 ⟨(h.imp cause span).throughout,
        List.forall_mem_singleton.2 ⟨f, failed, rfl, rfl⟩⟩ }

/-- Nothing around the node in which the fault arises. -/
theorem carried_alone {a : Attempt} {g : Fault} (raises : a.Raises host g st)
    (failed : (a.outcome host).fault? = some (g.within a.node.span)) :
    Carried host (g.within a.node.span) a [] g st where
  raises := raises
  cause := by
    unfold Fault.within
    split <;> rfl
  span := by
    cases hspan : g.span <;> simp [Fault.within, hspan, raises.origin]
  throughout := List.forall_mem_singleton.2 ⟨_, failed, rfl, rfl⟩

/-- Whatever a node fails with has arisen in the innermost of the nodes that fail. -/
theorem exists_carried (host : Host) (fuel : Nat) {n : Node} {st : State} {f : Fault}
    (failed : ((evaluator host fuel).run n st).fault? = some f) :
    ∃ inner around raised mid, failing host fuel n st = inner :: around ∧
      Carried host f inner around raised mid := by
  refine failing_induction host (motive := fun _ f inner around raised mid =>
    Carried host f inner around raised mid) carried_alone ?_ fuel failed
  intro fuel n st f last v g inner around raised mid unplaced inherits carried
  have placed : f.within n.span = f := by
    simp [Fault.within, inherits.span, carried.span]
  have failed : (Attempt.outcome host ⟨fuel + 1, n, st⟩).fault? = some f := by
    rw [Attempt.outcome, run_eq_refault, unplaced]
    exact congrArg some placed
  rw [placed]
  exact carried.outward failed inherits.cause inherits.span

/-- The same for a whole source. -/
theorem Source.exists_carried {source : Source}
    (failed : (source.run host fuel st).fault? = some f) :
    ∃ inner around raised mid, source.failing host fuel st = inner :: around ∧
      Carried host f inner around raised mid := by
  rcases source.failing_cases failed with
    ⟨e, error, rfl, hfailing⟩ | ⟨_, v, g, -, inherits, hfailing⟩
  · obtain ⟨raises, outcome, within⟩ := raises_text host error fuel st
    have carried := carried_alone raises (by rw [outcome, within])
    rw [within] at carried
    exact ⟨_, _, _, _, hfailing, carried⟩
  · obtain ⟨after, hv⟩ := inherits.run
    obtain ⟨inner, around, raised, mid, hinner, carried⟩ :=
      BraceScript.exists_carried host fuel (by rw [hv]; rfl)
    exact ⟨inner, around, raised, mid, hfailing.trans hinner,
      carried.imp inherits.cause inherits.span⟩

/-- A source that fails, in whatever state it is run, fails with a fault that has a place. The
fault has arisen in the innermost of the nodes that fail, where nothing else fails; its place is
the one that it had then or, if it had none, that of this node. Every node around it, from there
to the statement of the source, fails with a fault that is about the same at the same place. -/
theorem a_fault_keeps_the_innermost_place {source : Source}
    (failed : (source.run host fuel st).fault? = some f) :
    ∃ inner around raised mid, source.failing host fuel st = inner :: around ∧
      inner.Raises host raised mid ∧ f.cause = raised.cause ∧
      f.span = some (raised.span.getD inner.node.span) ∧
      ∀ a ∈ inner :: around, ∃ g, (a.outcome host).fault? = some g ∧
        g.cause = f.cause ∧ g.span = f.span := by
  obtain ⟨inner, around, raised, mid, hfailing, carried⟩ := source.exists_carried failed
  exact ⟨inner, around, raised, mid, hfailing, carried.raises, carried.cause, carried.span,
    carried.throughout⟩

/-- An unknown name in a sum, in a loop, in a function that is called from a joined block behind
the file that it is written in. -/
theorem a_name_in_a_loop_in_a_call :
    let library := "func f(n) \x7b loop (i, 1, n) \x7b show 1 + y \x7d \x7d"
    let host : Host := ⟨Files.inMemory.insert "lib.kq" (.text library), none⟩
    let source : Source := ⟨"connect \"lib.kq\" async \x7b show f(2) \x7d", none⟩
    let fault : Fault := { cause := .undefinedVariable "y", span := some ⟨38, 39⟩ }
    (source.run host 20 .initial).fault? = some fault ∧
      ∃ inner around raised mid, source.failing host 20 .initial = inner :: around ∧
        inner.Raises host raised mid ∧ fault.span = some (raised.span.getD inner.node.span) ∧
        (inner :: around).map (·.node.span) =
          [⟨38, 39⟩, ⟨34, 39⟩, ⟨29, 39⟩, ⟨12, 41⟩, ⟨30, 34⟩, ⟨25, 34⟩, ⟨17, 36⟩] := by
  intro library host source fault
  have failed : (source.run host 20 .initial).fault? = some fault := by decide +kernel
  obtain ⟨inner, around, raised, mid, hfailing, raises, -, span, -⟩ :=
    a_fault_keeps_the_innermost_place failed
  refine ⟨failed, inner, around, raised, mid, hfailing, raises, span, ?_⟩
  rw [← hfailing]
  decide +kernel

end BraceScript
