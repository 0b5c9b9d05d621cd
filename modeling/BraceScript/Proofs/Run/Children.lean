-- Blocks that run all their statements. Each child begins in the state that
-- the one before it has left, whatever that one came to; the outcomes count
-- only when all of them are there. A child leaves the files and the calls in
-- progress as they were also where it fails, so the next one runs in the same
-- place.
import BraceScript.Proofs.Run.Counting
import BraceScript.Proofs.Run.Frames

namespace BraceScript

variable {host : Host} {fuel : Nat} {ss : List Stmt} {st last : State} {os : List (Outcome Flow)}
  {fault : Option Fault} {value : Option Value}

/-! ## The children one after the other -/

/-- The value that a statement has returned. -/
def Outcome.returned? : Outcome Flow → Option Value
  | .ok (.returned v) _ => some v
  | _ => none

/-- What some statements come to if they are run in order, each from the state that the one before
has left, whether that has come to its end, has returned or has failed. And the state that the
last one leaves. -/
inductive InTurn (host : Host) : List Stmt → State → List (Outcome Flow) → State → Prop where
  | nil {st : State} : InTurn host [] st [] st
  | cons {s : Stmt} {ss : List Stmt} {st mid last : State} {o : Outcome Flow}
      {os : List (Outcome Flow)} (comes : ComesTo (fun fuel => runStmt host fuel s st) o)
      (ends : o.state? = some mid) (rest : InTurn host ss mid os last) :
      InTurn host (s :: ss) st (o :: os) last

/-- A fault comes first, then a returned value. -/
def settled (fault : Option Fault) (value : Option Value) (last : State) : Outcome Flow :=
  match fault, value with
  | some f, _ => .failed f last
  | none, some v => .ok (.returned v) last
  | none, none => .ok .normal last

/-- What a block comes to whose children come to these outcomes: the first fault among them, or
else the first value that one of them has returned. -/
def joined (os : List (Outcome Flow)) (last : State) : Outcome Flow :=
  settled (os.findSome? Outcome.fault?) (os.findSome? Outcome.returned?) last

theorem state?_settled (fault : Option Fault) (value : Option Value) (last : State) :
    (settled fault value last).state? = some last := by
  unfold settled
  split <;> rfl

/-! ## The block and its children -/

theorem joinAll_nil (ev : Evaluator) (fault : Option Fault) (value : Option Value) (st : State) :
    joinAll ev fault value [] st = settled fault value st := by
  cases fault <;> cases value <;> rfl

/-- A child that has ended adds what it has come to to what is known already. -/
theorem joinAll_cons {ev : Evaluator} {s : Stmt} {mid : State}
    (ends : (ev.stmt s st).state? = some mid) :
    joinAll ev fault value (s :: ss) st =
      joinAll ev (fault.or (ev.stmt s st).fault?) (value.or (ev.stmt s st).returned?) ss mid := by
  cases run : ev.stmt s st with
  | broken => simp [run, Outcome.state?] at ends
  | failed f after =>
    obtain rfl : after = mid := by simpa [run, Outcome.state?] using ends
    simp only [joinAll, run, Outcome.fault?, Outcome.returned?, Option.or_none]
  | ok flow after =>
    obtain rfl : after = mid := by simpa [run, Outcome.state?] using ends
    cases flow <;> simp only [joinAll, run, Outcome.fault?, Outcome.returned?, Option.or_none]

theorem findSome?_cons_eq_or {α β : Type} (f : α → Option β) (a : α) (l : List α) :
    (a :: l).findSome? f = (f a).or (l.findSome? f) := by
  rw [List.findSome?_cons]
  cases f a <;> rfl

/-- With enough fuel the block comes to what its children come to. -/
theorem InTurn.joinAll_eq (h : InTurn host ss st os last) (fault : Option Fault)
    (value : Option Value) :
    ∀ᶠ fuel in Filter.atTop, joinAll (evaluator host fuel) fault value ss st =
      settled (fault.or (os.findSome? Outcome.fault?))
        (value.or (os.findSome? Outcome.returned?)) last := by
  induction h generalizing fault value with
  | nil =>
    refine .of_forall fun fuel => ?_
    rw [joinAll_nil]
    simp
  | @cons s ss st mid last o os comes ends rest ih =>
    filter_upwards [comes.2, ih (fault.or o.fault?) (value.or o.returned?)] with fuel run rest
    have run : (evaluator host fuel).stmt s st = o := run
    rw [joinAll_cons (by rw [run, ends]), run, rest, Option.or_assoc, Option.or_assoc,
      ← findSome?_cons_eq_or, ← findSome?_cons_eq_or]

/-- If the block ends with some fuel, then so have all its children. -/
theorem exists_inTurn
    (ends : (joinAll (evaluator host fuel) fault value ss st).state?.isSome = true) :
    ∃ os last, InTurn host ss st os last := by
  induction ss generalizing st fault value with
  | nil => exact ⟨[], st, .nil⟩
  | cons s ss ih =>
    cases after : ((evaluator host fuel).stmt s st).state? with
    | none =>
      cases run : (evaluator host fuel).stmt s st with
      | ok | failed => simp [run, Outcome.state?] at after
      | broken reason => simp [joinAll, run, Outcome.state?] at ends
    | some mid =>
      rw [joinAll_cons after] at ends
      obtain ⟨os, last, rest⟩ := ih ends
      refine ⟨_, last, .cons (comesTo_stmt rfl fun spent => ?_) after rest⟩
      change (runStmt host fuel s st).state? = some mid at after
      rw [spent] at after
      cases after

/-- A fault that a child has come to is not given the place of the block. -/
theorem InTurn.within_joined (h : InTurn host ss st os last) (span : Span) :
    (joined os last).refault (·.within span) = joined os last := by
  have placed : ∀ f ∈ os.findSome? Outcome.fault?, f.within span = f := by
    induction h with
    | nil => rintro f ⟨⟩
    | @cons s ss st mid last o os comes ends rest ih =>
      intro f hf
      rw [List.findSome?_cons] at hf
      split at hf
      · next g fault =>
        cases hf
        obtain ⟨after, rfl⟩ := Outcome.fault?_eq_some.1 fault
        obtain ⟨fuel, run⟩ := comes.2.exists
        exact placed_of_stmt run span
      · exact ih f hf
  unfold joined settled
  cases found : os.findSome? Outcome.fault? with
  | some f =>
    have same : f.within span = f := placed f found
    simp [Outcome.refault, same]
  | none => cases os.findSome? Outcome.returned? <;> rfl

theorem comesTo_joined (h : InTurn host ss st os last) (span : Span) :
    ComesTo (fun fuel => runStmt host fuel (.at span (.async ss)) st) (joined os last) := by
  rw [← comesTo_succ]
  refine ⟨fun spent => ?_, ?_⟩
  · have state : (joined os last).state? = some last := state?_settled _ _ _
    rw [spent] at state
    cases state
  · filter_upwards [h.joinAll_eq none none] with fuel run
    change Exec.within span (joinAll (evaluator host fuel) none none ss) st = _
    rw [Exec.within_apply, run]
    exact h.within_joined span

theorem exists_inTurn_of_comesTo {span : Span} {o : Outcome Flow}
    (comes : ComesTo (fun fuel => runStmt host fuel (.at span (.async ss)) st) o)
    (ends : o.state?.isSome = true) : ∃ os last, InTurn host ss st os last := by
  obtain ⟨fuel, run⟩ := (comesTo_succ.2 comes).2.exists
  change Exec.within span (joinAll (evaluator host fuel) none none ss) st = o at run
  rw [← run, Exec.within_apply, Outcome.state?_refault] at ends
  exact exists_inTurn ends

/-! ## Between the children -/

theorem State.Restores.refl (st : State) : st.Restores st := ⟨rfl, rfl, rfl⟩

theorem State.Restores.trans {st mid last : State} (h : last.Restores mid)
    (before : mid.Restores st) : last.Restores st :=
  ⟨h.includes.trans before.includes, h.depth.trans before.depth, h.callers.trans before.callers⟩

/-- Every child leaves the files and the calls in progress as the block has found them, also if it
fails. -/
theorem InTurn.restores (h : InTurn host ss st os last) :
    last.Restores st ∧ ∀ o ∈ os, ∃ mid, o.state? = some mid ∧ mid.Restores st := by
  induction h with
  | nil => exact ⟨.refl _, List.forall_mem_nil _⟩
  | @cons s ss st mid last o os comes ends rest ih =>
    obtain ⟨fuel, run⟩ := comes.2.exists
    have run : runStmt host fuel s st = o := run
    have first : mid.Restores st := restores_runStmt host fuel s st mid (by rw [run, ends]; rfl)
    obtain ⟨atEnd, each⟩ := ih
    refine ⟨atEnd.trans first, List.forall_mem_cons.2 ⟨⟨mid, ends, first⟩, fun o' ho' => ?_⟩⟩
    obtain ⟨mid', ends', restores⟩ := each o' ho'
    exact ⟨mid', ends', restores.trans first⟩

/-! ## Ordinary blocks -/

theorem block_cons_normal {ev : Evaluator} {s : Stmt} :
    ev.block (s :: ss) st = .ok .normal last ↔
      ∃ mid, ev.stmt s st = .ok .normal mid ∧ ev.block ss mid = .ok .normal last := by
  simp only [Evaluator.block, Exec.bind_apply]
  cases ev.stmt s st with
  | ok flow mid =>
    cases flow with
    | normal => simp
    | returned v => simp [Exec.pure_apply]
  | failed | broken => simp

/-- All of them have come to their ends, and none has returned. -/
def AllNormal (os : List (Outcome Flow)) : Prop := ∀ o ∈ os, ∃ mid, o = .ok .normal mid

/-- An ordinary block comes to a normal end if and only if all its statements do in turn. -/
theorem comesTo_block_normal :
    ComesTo (fun fuel => (evaluator host fuel).block ss st) (.ok .normal last) ↔
      ∃ os, InTurn host ss st os last ∧ AllNormal os := by
  constructor
  · rintro ⟨-, comes⟩
    obtain ⟨fuel, run⟩ := comes.exists
    clear comes
    induction ss generalizing st with
    | nil =>
      cases run
      exact ⟨[], .nil, List.forall_mem_nil _⟩
    | cons s ss ih =>
      obtain ⟨mid, first, run⟩ := block_cons_normal.1 run
      obtain ⟨os, rest, normal⟩ := ih run
      exact ⟨_, .cons (comesTo_stmt first (by simp)) rfl rest,
        List.forall_mem_cons.2 ⟨⟨mid, rfl⟩, normal⟩⟩
  · rintro ⟨os, turns, normal⟩
    refine ⟨by simp, ?_⟩
    induction turns with
    | nil => exact .of_forall fun _ => rfl
    | @cons s ss st mid last o os comes ends rest ih =>
      obtain ⟨⟨after, rfl⟩, others⟩ := List.forall_mem_cons.1 normal
      cases ends
      filter_upwards [comes.2, ih others] with fuel first run
      exact block_cons_normal.2 ⟨mid, first, run⟩

/-! ## The law of joined blocks -/

/-- A joined block runs every child to its end. It ends, from whatever state, if and only if its
children do in turn, each from the state that the one before has left, whether that has come to
its end, has returned or has failed; it leaves the state that the last of them leaves. What it
comes to is the fault of the first child that fails, also behind one that has returned, or else
the value of the first child that returns, or else a normal end. All children find the same files
and calls in progress. Where none of them fails or returns, an ordinary block of the same
statements leaves the same state, and comes to a normal end only there. -/
theorem a_joined_block_runs_every_child_to_its_end (host : Host) (span : Span) (body : List Stmt)
    (st : State) :
    (∀ o, ComesTo (fun fuel => runStmt host fuel (.at span (.async body)) st) o ∧
        o.state?.isSome = true ↔
      ∃ os last, InTurn host body st os last ∧ o = joined os last) ∧
    (∀ os last, InTurn host body st os last →
      last.Restores st ∧ ∀ o ∈ os, ∃ mid, o.state? = some mid ∧ mid.Restores st) ∧
    ∀ last, ComesTo (fun fuel => (evaluator host fuel).block body st) (.ok .normal last) ↔
      ∃ os, InTurn host body st os last ∧ AllNormal os := by
  refine ⟨fun o => ⟨fun ⟨comes, ends⟩ => ?_, ?_⟩, fun os last turns => turns.restores,
    fun last => comesTo_block_normal⟩
  · obtain ⟨os, last, turns⟩ := exists_inTurn_of_comesTo comes ends
    exact ⟨os, last, turns, comes.unique (comesTo_joined turns span)⟩
  · rintro ⟨os, last, turns, rfl⟩
    refine ⟨comesTo_joined turns span, ?_⟩
    rw [joined, state?_settled]
    rfl

/-- A child returns, the one behind it fails, and the last one is run all the same. The statements
by themselves would have ended with the first one. -/
theorem a_child_fails_behind_one_that_returns :
    let host : Host := ⟨Files.inMemory, none⟩
    let one : Stmt := .at ⟨8, 16⟩ (.return (some (.at ⟨15, 16⟩ (.boolean true))))
    let unknown : Stmt := .at ⟨17, 26⟩ (.print .info (.at ⟨22, 26⟩ (.name "nope")))
    let late : Stmt := .at ⟨27, 38⟩ (.print .info (.at ⟨32, 38⟩ (.text "late")))
    let block : Stmt := .at ⟨0, 40⟩ (.async [one, unknown, late])
    let fault : Fault := { cause := .undefinedVariable "nope", span := some ⟨22, 26⟩ }
    let last : State := { State.initial with output := #[⟨.info, "late"⟩] }
    InTurn host [one, unknown, late] .initial
        [.ok (.returned (.boolean true)) .initial, .failed fault .initial, .ok .normal last] last ∧
      ComesTo (fun fuel => runStmt host fuel block .initial) (.failed fault last) ∧
      last.Restores .initial ∧
      ¬ ComesTo (fun fuel => (evaluator host fuel).block [one, unknown, late] .initial)
        (.ok .normal last) := by
  intro host one unknown late block fault last
  have turns : InTurn host [one, unknown, late] .initial
      [.ok (.returned (.boolean true)) .initial, .failed fault .initial, .ok .normal last] last :=
    .cons (@comesTo_stmt host 3 _ _ _ rfl (by simp)) rfl <|
    .cons (@comesTo_stmt host 3 _ _ _ rfl (by simp)) rfl <|
    .cons (@comesTo_stmt host 3 _ _ _ rfl (by simp)) rfl .nil
  obtain ⟨ends, laws, ordinary⟩ :=
    a_joined_block_runs_every_child_to_its_end host ⟨0, 40⟩ [one, unknown, late] .initial
  obtain ⟨comes, -⟩ := (ends _).2 ⟨_, _, turns, rfl⟩
  refine ⟨turns, comes, (laws _ _ turns).1, fun normal => ?_⟩
  obtain ⟨os, turns', normal⟩ := (ordinary _).1 normal
  cases turns with
  | cons returns =>
    cases turns' with
    | cons comes' =>
      obtain ⟨mid, rfl⟩ := normal _ List.mem_cons_self
      cases returns.unique comes'

end BraceScript
