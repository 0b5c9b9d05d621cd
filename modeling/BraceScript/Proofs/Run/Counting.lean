-- Counting loops. The loop keeps its count by itself, so no body can make it
-- skip or repeat a round, whatever that does with the global of the same
-- name. Only three things end a loop before its count is past the end: a
-- `return`, a fault, and a body that binds the counter for good.
import BraceScript.Proofs.Run.Persistence
import Mathlib.Order.Filter.AtTopBot.Basic

namespace BraceScript

variable {α : Type}

/-! ## What a step comes to -/

/-- With enough fuel the step comes to this, and not to an end of the fuel. -/
def ComesTo (x : Nat → Outcome α) (o : Outcome α) : Prop :=
  o ≠ .broken .outOfFuel ∧ ∀ᶠ fuel in Filter.atTop, x fuel = o

theorem ComesTo.unique {x : Nat → Outcome α} {o o' : Outcome α} (h : ComesTo x o)
    (h' : ComesTo x o') : o = o' := by
  obtain ⟨fuel, ends, ends'⟩ := (h.2.and h'.2).exists
  exact ends.symm.trans ends'

/-- One unit of fuel more or less does not matter. -/
theorem comesTo_succ {x : Nat → Outcome α} {o : Outcome α} :
    ComesTo (fun fuel => x (fuel + 1)) o ↔ ComesTo x o := by
  have shifted : (∀ᶠ fuel in Filter.atTop, x (fuel + 1) = o) ↔
      ∀ᶠ fuel in Filter.atTop, x fuel = o := by
    conv_rhs => rw [← Filter.map_add_atTop_eq_nat 1, Filter.eventually_map]
  simp only [ComesTo, shifted]

/-- A step that more fuel does not change comes to what it does with some fuel. -/
theorem comesTo_of_persists {x : Nat → Outcome α} {o : Outcome α} {fuel : Nat}
    (more : ∀ extra, (x fuel).Persists extra id (x (fuel + extra))) (run : x fuel = o)
    (ends : o ≠ .broken .outOfFuel) : ComesTo x o := by
  subst run
  refine ⟨ends, ?_⟩
  filter_upwards [Filter.eventually_ge_atTop fuel] with enough hfuel
  obtain ⟨extra, rfl⟩ := Nat.exists_eq_add_of_le hfuel
  rcases more extra with same | ⟨-, spent⟩
  · rw [same]
    cases x fuel <;> rfl
  · exact absurd spent ends

theorem comesTo_stmt {host : Host} {fuel : Nat} {s : Stmt} {st : State} {o : Outcome Flow}
    (run : runStmt host fuel s st = o) (ends : o ≠ .broken .outOfFuel) :
    ComesTo (fun fuel => runStmt host fuel s st) o :=
  comesTo_of_persists (fun extra => persists_run host fuel extra id (n := .stmt s)
    fun _ _ _ => rfl) run ends

theorem comesTo_block {host : Host} {fuel : Nat} {ss : List Stmt} {st : State} {o : Outcome Flow}
    (run : (evaluator host fuel).block ss st = o) (ends : o ≠ .broken .outOfFuel) :
    ComesTo (fun fuel => (evaluator host fuel).block ss st) o :=
  comesTo_of_persists (fun extra => persists_rows host fuel extra id fun _ _ _ _ _ => rfl) run ends

/-- The fault that a statement comes to has a place. -/
theorem placed_of_stmt {host : Host} {fuel : Nat} {s : Stmt} {st st' : State} {f : Fault}
    (h : runStmt host fuel s st = .failed f st') (span : Span) : f.within span = f := by
  cases fuel with
  | zero => cases h
  | succ fuel =>
    obtain ⟨own, form⟩ := s
    rw [runStmt, Exec.within_apply] at h
    unfold Outcome.refault at h
    split at h
    · cases h
      simp only [Fault.within]
      grind
    · next other => exact absurd h (other _ _)

theorem placed_of_block {host : Host} {fuel : Nat} {ss : List Stmt} {st st' : State} {f : Fault}
    (h : (evaluator host fuel).block ss st = .failed f st') (span : Span) : f.within span = f := by
  induction ss generalizing st with
  | nil => cases h
  | cons s ss ih =>
    simp only [Evaluator.block, Exec.bind_apply] at h
    cases run : (evaluator host fuel).stmt s st with
    | ok flow mid =>
      rw [run] at h
      cases flow with
      | normal => exact ih h
      | returned v => cases h
    | failed f' mid =>
      rw [run] at h
      cases h
      exact placed_of_stmt run span
    | broken reason =>
      rw [run] at h
      cases h

/-! ## The counter -/

/-- What a loop has counted to after some rounds. -/
def counterAt (start : Float) : Nat → Float
  | 0 => start
  | n + 1 => counterAt start n + 1.0

/-- The state with the counter bound as a global, to this number and not for good. -/
def State.counted (counter : String) (x : Float) (st : State) : State :=
  { st with env :=
    { st.env with globals := st.env.globals.define counter (.number x) false } }

/-- The state without the counter among the globals. -/
def State.uncounted (counter : String) (st : State) : State :=
  { st with env := st.env.unsetGlobal counter }

variable {counter : String} {x start last : Float} {body : List Stmt} {st mid : State}

theorem find?_counted : (st.counted counter x).env.globals.find? counter =
    some ⟨.number x, false⟩ := by
  simp [State.counted, Scope.find?_define]

theorem find?_uncounted : (st.uncounted counter).env.globals.find? counter = none := by
  simp [State.uncounted, Environment.unsetGlobal, Scope.find?_without]

theorem isImmutable_counted : (st.counted counter x).env.globals.isImmutable counter = false := by
  unfold Scope.isImmutable
  rw [find?_counted]

theorem Scope.without_define (s : Scope) (name : String) (v : Value) (immutable : Bool) :
    (s.define name v immutable).without name = s.without name := by
  simp [Scope.define, Scope.without]

@[simp] theorem counted_counted :
    (st.counted counter x).counted counter x = st.counted counter x := by
  simp [State.counted, Scope.define, Scope.without]

@[simp] theorem uncounted_counted :
    (st.counted counter x).uncounted counter = st.uncounted counter := by
  simp [State.uncounted, State.counted, Environment.unsetGlobal, Scope.without_define]

theorem setCounter_of_immutable (h : st.env.globals.isImmutable counter = true) :
    setCounter counter x st = .failed { cause := .immutable counter } st := by
  simp [setCounter, Exec.bindings, Environment.setGlobal, h, Fault.Cause.ofRefusal]

theorem setCounter_of_mutable (h : st.env.globals.isImmutable counter = false) :
    setCounter counter x st = .ok () (st.counted counter x) := by
  simp [setCounter, Exec.bindings, Environment.setGlobal, h, State.counted]

/-! ## The rounds of a loop -/

/-- After `n` rounds of the loop from `start` to `last`, all of which have come to their end, the
state is `mid`. Nothing but the counter is changed between two rounds. -/
inductive AfterRounds (host : Host) (counter : String) (start last : Float) (body : List Stmt)
    (st : State) : Nat → State → Prop
  | none : AfterRounds host counter start last body st 0 st
  | next {n : Nat} {mid after : State} (earlier : AfterRounds host counter start last body st n mid)
      (counts : counterAt start n ≤ last)
      (free : mid.env.globals.isImmutable counter = false)
      (ends : ComesTo (fun fuel => (evaluator host fuel).block body
        (mid.counted counter (counterAt start n))) (.ok .normal after)) :
      AfterRounds host counter start last body st (n + 1) after

/-- The state in which the body is run for the count number `n`. -/
def RoundBegins (host : Host) (counter : String) (start last : Float) (body : List Stmt)
    (st : State) (n : Nat) (begun : State) : Prop :=
  ∃ mid, AfterRounds host counter start last body st n mid ∧ counterAt start n ≤ last ∧
    mid.env.globals.isImmutable counter = false ∧
    begun = mid.counted counter (counterAt start n)

/-- How a loop comes to its end after `n` rounds that have left the state `mid`. -/
inductive LoopEnds (host : Host) (span : Span) (counter : String) (start last : Float)
    (body : List Stmt) (n : Nat) (mid : State) : Outcome Flow → Prop
  /-- The count is past the end. -/
  | past (beyond : ¬ counterAt start n ≤ last) :
      LoopEnds host span counter start last body n mid (.ok .normal (mid.uncounted counter))
  /-- The round before has bound the counter for good. -/
  | fixed (counts : counterAt start n ≤ last)
      (bound : mid.env.globals.isImmutable counter = true) :
      LoopEnds host span counter start last body n mid
        (.failed { cause := .immutable counter, span := some span } (mid.uncounted counter))
  /-- The next round does not come to its end, and what it comes to the loop comes to. -/
  | early {o : Outcome Flow} (counts : counterAt start n ≤ last)
      (free : mid.env.globals.isImmutable counter = false)
      (stops : ComesTo (fun fuel => (evaluator host fuel).block body
        (mid.counted counter (counterAt start n))) o)
      (unended : ∀ after, o ≠ .ok .normal after) :
      LoopEnds host span counter start last body n mid (o.change (State.uncounted counter))

/-- The states in which the body of a loop is run, in their order. -/
def beginnings (ev : Evaluator) (counter : String) (last : Float) (body : List Stmt) :
    Nat → Float → State → List State
  | 0, _, _ => []
  | rounds + 1, x, st =>
    if x ≤ last then
      match setCounter counter x st with
      | .ok () begun => begun ::
        match ev.block body begun with
        | .ok .normal after => beginnings ev counter last body rounds (x + 1.0) after
        | _ => []
      | _ => []
    else []

variable {ev : Evaluator} {rounds : Nat}

/-- What is run in the rounds is the body, once from each of these states. -/
theorem visitRounds_eq (ev : Evaluator) (counter : String) (last : Float) (body : List Stmt)
    (rounds : Nat) (x : Float) (st : State) : ev.visitRounds counter last body rounds x st =
      (beginnings ev counter last body rounds x st).flatMap (ev.visitBlock body) := by
  induction rounds generalizing x st with
  | zero => rfl
  | succ rounds ih =>
    unfold Evaluator.visitRounds beginnings
    split
    · cases setCounter counter x st with
      | ok u begun =>
        simp only [Outcome.onward, List.flatMap_cons]
        cases ev.block body begun with
        | ok flow after =>
          cases flow with
          | normal => simp only [ih]
          | returned v => rfl
        | failed | broken => rfl
      | failed | broken => rfl
    · rfl

/-! ### One more round -/

/-- The rest of a loop from a round on, by what its body comes to. -/
theorem countRounds_of_free (counts : x ≤ last)
    (free : st.env.globals.isImmutable counter = false) :
    countRounds ev counter last body (rounds + 1) x st =
      match ev.block body (st.counted counter x) with
      | .ok .normal after => countRounds ev counter last body rounds (x + 1.0) after
      | o => o := by
  have begins := setCounter_of_mutable (x := x) free
  simp only [countRounds, if_pos counts, Exec.bind_apply, begins]
  cases ev.block body (st.counted counter x) with
  | ok flow after => cases flow <;> rfl
  | failed | broken => rfl

theorem countRounds_of_fixed (counts : x ≤ last)
    (bound : st.env.globals.isImmutable counter = true) :
    countRounds ev counter last body (rounds + 1) x st =
      .failed { cause := .immutable counter } st := by
  simp only [countRounds, if_pos counts, Exec.bind_apply, setCounter_of_immutable bound]

theorem countRounds_of_past (beyond : ¬ x ≤ last) :
    countRounds ev counter last body (rounds + 1) x st = .ok .normal st := by
  simp only [countRounds, if_neg beyond]
  rfl

theorem beginnings_of_free (counts : x ≤ last)
    (free : st.env.globals.isImmutable counter = false) :
    beginnings ev counter last body (rounds + 1) x st = st.counted counter x ::
      match ev.block body (st.counted counter x) with
      | .ok .normal after => beginnings ev counter last body rounds (x + 1.0) after
      | _ => [] := by
  simp only [beginnings, if_pos counts, setCounter_of_mutable free]

theorem beginnings_of_fixed (bound : st.env.globals.isImmutable counter = true) :
    beginnings ev counter last body (rounds + 1) x st = [] := by
  simp only [beginnings, setCounter_of_immutable bound, ite_self]

theorem beginnings_of_past (beyond : ¬ x ≤ last) :
    beginnings ev counter last body (rounds + 1) x st = [] := by
  simp only [beginnings, if_neg beyond]

/-- The counter is bound once more before the first round, to the same number. -/
theorem countRounds_counted (free : st.env.globals.isImmutable counter = false) :
    (countRounds ev counter last body rounds x (st.counted counter x)).change
        (State.uncounted counter) =
      (countRounds ev counter last body rounds x st).change (State.uncounted counter) := by
  cases rounds with
  | zero => rfl
  | succ rounds =>
    by_cases counts : x ≤ last
    · rw [countRounds_of_free counts isImmutable_counted, countRounds_of_free counts free,
        counted_counted]
    · rw [countRounds_of_past counts, countRounds_of_past counts]
      simp only [Outcome.change, uncounted_counted]

theorem beginnings_counted (free : st.env.globals.isImmutable counter = false) :
    beginnings ev counter last body rounds x (st.counted counter x) =
      beginnings ev counter last body rounds x st := by
  cases rounds with
  | zero => rfl
  | succ rounds =>
    by_cases counts : x ≤ last
    · rw [beginnings_of_free counts isImmutable_counted, beginnings_of_free counts free,
        counted_counted]
    · rw [beginnings_of_past counts, beginnings_of_past counts]

/-! ### From the rounds to the loop -/

variable {host : Host} {span : Span} {n : Nat} {begun : State}

/-- Rounds that come to their end are behind the loop, given enough fuel. -/
theorem AfterRounds.behind (h : AfterRounds host counter start last body st n mid) :
    ∀ᶠ fuel in Filter.atTop, ∀ rounds,
      countRounds (evaluator host fuel) counter last body (n + rounds) start st =
        countRounds (evaluator host fuel) counter last body rounds (counterAt start n) mid ∧
      ∃ front : List State, front.length = n ∧
        beginnings (evaluator host fuel) counter last body (n + rounds) start st =
          front ++ beginnings (evaluator host fuel) counter last body rounds
            (counterAt start n) mid := by
  induction h with
  | none =>
    refine .of_forall fun fuel rounds => ?_
    rw [Nat.zero_add]
    exact ⟨rfl, [], rfl, rfl⟩
  | @next n mid after _ counts free ends ih =>
    filter_upwards [ih, ends.2] with fuel ih round rounds
    obtain ⟨run, front, length, begun⟩ := ih (rounds + 1)
    rw [Nat.add_right_comm, Nat.add_assoc]
    refine ⟨?_, front ++ [mid.counted counter (counterAt start n)], by simp [length], ?_⟩
    · rw [run, countRounds_of_free counts free, round]
      rfl
    · rw [begun, beginnings_of_free counts free, round]
      simp [counterAt]

/-- The same for a loop that has as many rounds as it has fuel: it has one more to go. -/
theorem AfterRounds.behind_all (h : AfterRounds host counter start last body st n mid) :
    ∀ᶠ fuel in Filter.atTop, ∃ rounds,
      countRounds (evaluator host fuel) counter last body fuel start st =
        countRounds (evaluator host fuel) counter last body (rounds + 1) (counterAt start n) mid ∧
      ∃ front : List State, front.length = n ∧
        beginnings (evaluator host fuel) counter last body fuel start st =
          front ++ beginnings (evaluator host fuel) counter last body (rounds + 1)
            (counterAt start n) mid := by
  filter_upwards [h.behind, Filter.eventually_ge_atTop (n + 1)] with fuel behind hfuel
  obtain ⟨rounds, hrounds⟩ := Nat.exists_eq_add_of_le hfuel
  have all : n + (rounds + 1) = fuel := by omega
  refine ⟨rounds, ?_⟩
  have behind := behind (rounds + 1)
  rwa [all] at behind

/-- A loop that ends so comes to that. -/
theorem LoopEnds.comesTo {o : Outcome Flow}
    (after : AfterRounds host counter start last body st n mid)
    (ends : LoopEnds host span counter start last body n mid o) :
    ComesTo (fun fuel =>
      ((countRounds (evaluator host fuel) counter last body fuel start st).change
        (State.uncounted counter)).refault (·.within span)) o := by
  cases ends with
  | past beyond =>
    refine ⟨by simp, ?_⟩
    filter_upwards [after.behind_all] with fuel ⟨rounds, run, _⟩
    rw [run, countRounds_of_past beyond]
    rfl
  | fixed counts bound =>
    refine ⟨by simp, ?_⟩
    filter_upwards [after.behind_all] with fuel ⟨rounds, run, _⟩
    rw [run, countRounds_of_fixed counts bound]
    rfl
  | @early o counts free stops unended =>
    refine ⟨?_, ?_⟩
    · have unspent := stops.1
      cases o with
      | broken reason => exact unspent
      | ok | failed => simp [Outcome.change]
    filter_upwards [after.behind_all, stops.2] with fuel ⟨rounds, run, _⟩ stop
    rw [run, countRounds_of_free counts free, stop]
    cases o with
    | ok flow after =>
      cases flow with
      | normal => exact absurd rfl (unended after)
      | returned v => rfl
    | failed f after => simp only [Outcome.change, Outcome.refault, placed_of_block stop]
    | broken reason => rfl

/-- Every state in which a round begins is one in which the body is run, given enough fuel. -/
theorem RoundBegins.eventually (h : RoundBegins host counter start last body st n begun) :
    ∀ᶠ fuel in Filter.atTop,
      (beginnings (evaluator host fuel) counter last body fuel start st)[n]? = some begun := by
  obtain ⟨mid, after, counts, free, rfl⟩ := h
  filter_upwards [after.behind_all] with fuel ⟨rounds, _, front, length, begins⟩
  rw [begins, List.getElem?_append_right (by omega), length, Nat.sub_self,
    beginnings_of_free counts free]
  rfl

/-! ### From the loop to the rounds -/

/-- What is left of a loop after some rounds, if it does not run out of fuel, is more rounds and
then an end. -/
theorem AfterRounds.exists_end {fuel : Nat}
    (h : AfterRounds host counter start last body st n mid)
    (ends : countRounds (evaluator host fuel) counter last body rounds (counterAt start n) mid ≠
      .broken .outOfFuel) :
    ∃ n' mid', AfterRounds host counter start last body st n' mid' ∧
      LoopEnds host span counter start last body n' mid'
        (((countRounds (evaluator host fuel) counter last body rounds
          (counterAt start n) mid).change (State.uncounted counter)).refault (·.within span)) := by
  induction rounds generalizing n mid with
  | zero => exact absurd rfl ends
  | succ rounds ih =>
    by_cases counts : counterAt start n ≤ last
    · cases bound : mid.env.globals.isImmutable counter with
      | true =>
        rw [countRounds_of_fixed counts bound]
        exact ⟨n, mid, h, .fixed counts bound⟩
      | false =>
        rw [countRounds_of_free counts bound] at ends ⊢
        cases run : (evaluator host fuel).block body (mid.counted counter (counterAt start n)) with
        | ok flow after =>
          rw [run] at ends
          have ended := comesTo_block run (by simp)
          cases flow with
          | normal => exact ih (.next h counts bound ended) ends
          | returned v => exact ⟨n, mid, h, .early counts bound ended (by simp)⟩
        | failed f after =>
          have ended := comesTo_block run (by simp)
          simp only [Outcome.change, Outcome.refault, placed_of_block run]
          exact ⟨n, mid, h, .early counts bound ended (by simp)⟩
        | broken reason =>
          rw [run] at ends
          have ended := comesTo_block run ends
          exact ⟨n, mid, h, .early counts bound ended (by simp)⟩
    · rw [countRounds_of_past counts]
      exact ⟨n, mid, h, .past counts⟩

/-- Every state in which the body is run is one in which a round begins. -/
theorem AfterRounds.begins {fuel k : Nat}
    (h : AfterRounds host counter start last body st n mid)
    (hk : (beginnings (evaluator host fuel) counter last body rounds (counterAt start n) mid)[k]? =
      some begun) :
    RoundBegins host counter start last body st (n + k) begun := by
  induction rounds generalizing n mid k with
  | zero => cases hk
  | succ rounds ih =>
    by_cases counts : counterAt start n ≤ last
    · cases bound : mid.env.globals.isImmutable counter with
      | true =>
        rw [beginnings_of_fixed bound] at hk
        cases hk
      | false =>
        rw [beginnings_of_free counts bound] at hk
        cases k with
        | zero =>
          cases hk
          exact ⟨mid, h, counts, bound, rfl⟩
        | succ k =>
          rw [List.getElem?_cons_succ] at hk
          split at hk
          · next after run =>
            rw [Nat.add_comm k 1, ← Nat.add_assoc]
            exact ih (.next h counts bound (comesTo_block run (by simp))) hk
          · cases hk
    · rw [beginnings_of_past counts] at hk
      cases hk

/-! ## Whole loops -/

variable {first final : Expr} {o : Outcome Flow} {st₁ st₂ : State}

theorem loopBound_of_number {e : Expr} {which : String} (h : ev.expr e st = .ok (.number x) st₁) :
    loopBound ev e which st = .ok x st₁ := by
  simp only [loopBound, Exec.bind_apply, h]
  rfl

/-- What a loop does whose ends are numbers. -/
theorem countLoop_of_bounds (starts : ev.expr first st = .ok (.number start) st₁)
    (stops : ev.expr final st₁ = .ok (.number last) st₂) :
    countLoop ev rounds counter first final body st =
      if st₂.env.globals.isImmutable counter then .failed { cause := .immutable counter } st₂
      else (countRounds ev counter last body rounds start st₂).change
        (State.uncounted counter) := by
  simp only [countLoop, Exec.bind_apply, loopBound_of_number starts, loopBound_of_number stops]
  cases bound : st₂.env.globals.isImmutable counter with
  | true => simp only [setCounter_of_immutable bound, if_true]
  | false =>
    simp only [setCounter_of_mutable bound, Bool.false_eq_true, if_false]
    exact countRounds_counted bound

/-- What such a loop runs: both ends, and its body once from the beginning of each round. -/
theorem visitLoop_of_bounds (starts : ev.expr first st = .ok (.number start) st₁)
    (stops : ev.expr final st₁ = .ok (.number last) st₂) :
    ev.visitLoop rounds counter first final body st =
      [.expr first st, .expr final st₁] ++
        if st₂.env.globals.isImmutable counter then []
        else ((beginnings ev counter last body rounds start st₂).flatMap
          (ev.visitBlock body)).map (Visit.inside (.loop counter)) := by
  simp only [Evaluator.visitLoop, loopBound_of_number starts, loopBound_of_number stops,
    Outcome.onward]
  cases bound : st₂.env.globals.isImmutable counter with
  | true => simp [setCounter_of_immutable bound]
  | false =>
    simp only [setCounter_of_mutable bound, visitRounds_eq, beginnings_counted bound]
    rfl

theorem runStmt_loop (span : Span) (counter : String) (body : List Stmt)
    (starts : ComesTo (fun fuel => evalExpr host fuel first st) (.ok (.number start) st₁))
    (stops : ComesTo (fun fuel => evalExpr host fuel final st₁) (.ok (.number last) st₂)) :
    ∀ᶠ fuel in Filter.atTop,
      runStmt host (fuel + 1) (.at span (.loop counter first final body)) st =
        if st₂.env.globals.isImmutable counter then
          .failed { cause := .immutable counter, span := some span } st₂
        else ((countRounds (evaluator host fuel) counter last body fuel start st₂).change
          (State.uncounted counter)).refault (·.within span) := by
  filter_upwards [starts.2, stops.2] with fuel starts stops
  have loop : perform host (evaluator host fuel) fuel span
      (.loop counter first final body) st = _ :=
    countLoop_of_bounds starts stops
  change (runStmt host (fuel + 1) _) st = _
  rw [runStmt, Exec.within_apply]
  change (perform host (evaluator host fuel) fuel span _ st).refault _ = _
  rw [loop]
  split <;> rfl

/-- A loop whose counter is a global that is bound for good fails before its first round. -/
theorem comesTo_loop_of_immutable
    (starts : ComesTo (fun fuel => evalExpr host fuel first st) (.ok (.number start) st₁))
    (stops : ComesTo (fun fuel => evalExpr host fuel final st₁) (.ok (.number last) st₂))
    (bound : st₂.env.globals.isImmutable counter = true) :
    ComesTo (fun fuel => runStmt host fuel (.at span (.loop counter first final body)) st)
      (.failed { cause := .immutable counter, span := some span } st₂) := by
  refine comesTo_succ.1 ⟨by simp, ?_⟩
  have whole := runStmt_loop span counter body starts stops
  simpa only [bound, if_true] using whole

/-- A loop whose ends are numbers and whose counter may be bound comes to what its rounds do. -/
theorem comesTo_loop
    (starts : ComesTo (fun fuel => evalExpr host fuel first st) (.ok (.number start) st₁))
    (stops : ComesTo (fun fuel => evalExpr host fuel final st₁) (.ok (.number last) st₂))
    (free : st₂.env.globals.isImmutable counter = false) :
    ComesTo (fun fuel => runStmt host fuel (.at span (.loop counter first final body)) st) o ↔
      ∃ n mid, AfterRounds host counter start last body st₂ n mid ∧
        LoopEnds host span counter start last body n mid o := by
  have whole := runStmt_loop span counter body starts stops
  simp only [free, Bool.false_eq_true, if_false] at whole
  constructor
  · intro comes
    obtain ⟨unspent, comes⟩ := comesTo_succ.2 comes
    obtain ⟨fuel, run, whole⟩ := (comes.and whole).exists
    obtain rfl := run.symm.trans whole
    refine AfterRounds.none.exists_end fun spent => unspent ?_
    rw [show counterAt start 0 = start from rfl] at spent
    rw [spent]
    rfl
  · rintro ⟨n, mid, after, ends⟩
    obtain ⟨unspent, comes⟩ := ends.comesTo after
    refine comesTo_succ.1 ⟨unspent, ?_⟩
    filter_upwards [whole, comes] with fuel whole comes
    exact whole.trans comes

/-- However a loop ends, its counter is not bound. -/
theorem LoopEnds.unbound (h : LoopEnds host span counter start last body n mid o) :
    ∀ after ∈ o.state?, after.env.globals.find? counter = none := by
  cases h with
  | past | fixed =>
    rintro after ⟨⟩
    exact find?_uncounted
  | early =>
    intro after hafter
    rw [Outcome.state?_change] at hafter
    obtain ⟨e, -, rfl⟩ := Option.map_eq_some_iff.1 hafter
    exact find?_uncounted

/-- A counting loop runs its whole range, whatever its body does. If its counter is a global that
is bound for good, no round begins and nothing is changed. If not, the body is run for the start,
the start and one more, and so on while the count is not past the end, each time with the counter
bound to it as a global. The loop ends early only if the body does not come to its end, or if it
has bound the counter for good. However it ends, the counter is not bound afterwards. All of this
goes for loops without end too: their body is run in exactly the states in which a round begins. -/
theorem a_counting_loop_runs_its_whole_range (host : Host) (span : Span) (counter : String)
    (first final : Expr) (body : List Stmt) (st : State) (start last : Float)
    (starts : ComesTo (fun fuel => evalExpr host fuel first st) (.ok (.number start) st))
    (stops : ComesTo (fun fuel => evalExpr host fuel final st) (.ok (.number last) st)) :
    let loop : Stmt := .at span (.loop counter first final body)
    let run : Nat → Outcome Flow := fun fuel => runStmt host fuel loop st
    let states : Nat → List State := fun fuel =>
      beginnings (evaluator host fuel) counter last body fuel start st
    (st.env.globals.isImmutable counter = true →
      (∃ f, ComesTo run (.failed f st) ∧ f.span = some span ∧ f.cause = .immutable counter ∧
        f.cause.code.label = "E2003") ∧
      ∀ᶠ fuel in Filter.atTop,
        visits host (fuel + 1) (.stmt loop) st = [.expr first st, .expr final st]) ∧
    (st.env.globals.isImmutable counter = false →
      (∀ o, ComesTo run o ↔ ∃ n mid, AfterRounds host counter start last body st n mid ∧
        LoopEnds host span counter start last body n mid o) ∧
      (∀ o, ComesTo run o → ∀ after ∈ o.state?, after.env.globals.find? counter = none) ∧
      (∀ᶠ fuel in Filter.atTop, visits host (fuel + 1) (.stmt loop) st =
        [.expr first st, .expr final st] ++ ((states fuel).flatMap
          ((evaluator host fuel).visitBlock body)).map (Visit.inside (.loop counter))) ∧
      (∀ fuel n begun, (states fuel)[n]? = some begun →
        RoundBegins host counter start last body st n begun) ∧
      ∀ n begun, RoundBegins host counter start last body st n begun →
        begun.env.globals.find? counter = some ⟨.number (counterAt start n), false⟩ ∧
        ∀ᶠ fuel in Filter.atTop, (states fuel)[n]? = some begun) := by
  intro loop run states
  have visited : ∀ᶠ fuel in Filter.atTop, visits host (fuel + 1) (.stmt loop) st =
      [.expr first st, .expr final st] ++
        if st.env.globals.isImmutable counter then []
        else ((states fuel).flatMap
          ((evaluator host fuel).visitBlock body)).map (Visit.inside (.loop counter)) := by
    filter_upwards [starts.2, stops.2] with fuel starts stops
    have loop : (evaluator host fuel).visitLoop fuel counter first final body st = _ :=
      visitLoop_of_bounds starts stops
    exact loop
  refine ⟨fun bound => ⟨?_, ?_⟩, fun free => ⟨?_, ?_, ?_, ?_, ?_⟩⟩
  · exact ⟨_, comesTo_loop_of_immutable starts stops bound, rfl, rfl, rfl⟩
  · simpa only [bound, if_true, List.append_nil] using visited
  · exact fun o => comesTo_loop starts stops free
  · intro o comes
    obtain ⟨n, mid, -, ends⟩ := (comesTo_loop starts stops free).1 comes
    exact ends.unbound
  · simpa only [free, Bool.false_eq_true, if_false] using visited
  · intro fuel n begun hn
    have before : AfterRounds host counter start last body st 0 st := .none
    have begins := before.begins hn
    rwa [Nat.zero_add] at begins
  · intro n begun begins
    refine ⟨?_, begins.eventually⟩
    obtain ⟨mid, -, -, -, rfl⟩ := begins
    exact find?_counted

/-- In `loop (i, 1, 3) { delvar i }` each round deletes the counter. The loop comes to its end all
the same, and its body has been run three times, each time with the counter bound. -/
theorem a_loop_whose_body_deletes_its_counter :
    let host : Host := ⟨Files.inMemory, none⟩
    let body : List Stmt := [.at ⟨17, 25⟩ (.deleteVariable "i")]
    let loop : Stmt :=
      .at ⟨0, 27⟩ (.loop "i" (.at ⟨9, 10⟩ (.number 1)) (.at ⟨12, 13⟩ (.number 3)) body)
    (∃ begun : List State, begun.length = 3 ∧ ∀ n b, begun[n]? = some b →
      RoundBegins host "i" 1 3 body State.initial n b ∧
      b.env.globals.find? "i" = some ⟨.number (counterAt 1 n), false⟩) ∧
    ∃ flow after, ComesTo (fun fuel => runStmt host fuel loop State.initial) (.ok flow after) ∧
      after.env.globals.find? "i" = none := by
  intro host body loop
  have literal (span : Span) (x : Float) : ComesTo (fun fuel =>
      evalExpr host fuel (.at span (.number x)) State.initial) (.ok (.number x) State.initial) :=
    comesTo_succ.1 ⟨by simp, .of_forall fun _ => rfl⟩
  obtain ⟨-, whole⟩ := a_counting_loop_runs_its_whole_range host ⟨0, 27⟩ "i" _ _ body
    State.initial 1 3 (literal ⟨9, 10⟩ 1) (literal ⟨12, 13⟩ 3)
  obtain ⟨-, unbound, -, sound, begins⟩ := whole rfl
  refine ⟨⟨beginnings (evaluator host 4) "i" 3 body 4 1 State.initial, by decide +kernel, ?_⟩, ?_⟩
  · intro n b hb
    have round := sound 4 n b hb
    exact ⟨round, (begins n b round).1⟩
  · have ends : (runStmt host 6 loop State.initial).isOk = true := by decide +kernel
    obtain ⟨flow, after, run⟩ := Outcome.exists_of_isOk ends
    have comes := comesTo_stmt run (by simp)
    exact ⟨flow, after, comes, unbound _ comes after rfl⟩

end BraceScript
