-- How far a counting loop counts. Its counter is a double, and there is one
-- from which the next count is that double again. A loop whose end is not
-- below that one never gets past its end: of all loops whose bodies come to
-- their end, these are the ones that go on forever.
import BraceScript.Proofs.Number.Increment
import BraceScript.Proofs.Run.Counting

namespace BraceScript

open Number (value? value?_eq_some)

/-! ## Where counters come to rest -/

/-- The double that no count goes beyond: `2 ^ 53` for most starts, and else the first count. -/
def counterLimit (start : Float) : Float :=
  if -9007199254740994 ≤ start ∧ start ≤ 9007199254740992 then 9007199254740992 else start + 1.0

variable {start last : Float} {p r : ℚ}

theorem value?_top : value? 9007199254740992 = some (2 ^ 53) :=
  value?_eq_some.2 ⟨false, 2 ^ 52, 1, rfl, by norm_num [Number.signed]⟩

theorem value?_bottom : value? (-9007199254740994) = some (-2 ^ 53 - 2) :=
  value?_eq_some.2 ⟨true, 2 ^ 52 + 1, 1, rfl, by norm_num [Number.signed]⟩

theorem counterAt_succ (start : Float) (n : Nat) :
    counterAt start (n + 1) = counterAt (start + 1.0) n := by
  induction n with
  | zero => rfl
  | succ n ih =>
    change counterAt start (n + 1) + 1.0 = counterAt (start + 1.0) n + 1.0
    rw [ih]

/-- Between `-2 ^ 53` and `2 ^ 53` each count is a half further on at least, up to `2 ^ 53`. -/
theorem counter_below (h : value? start = some p) (low : -2 ^ 53 ≤ p) (high : p ≤ 2 ^ 53)
    (n : Nat) :
    ∃ q, value? (counterAt start n) = some q ∧ q ≤ 2 ^ 53 ∧ (q = 2 ^ 53 ∨ p + n / 2 ≤ q) := by
  induction n with
  | zero => exact ⟨p, h, high, .inr (by simp)⟩
  | succ n ih =>
    obtain ⟨q, number, atMost, far⟩ := ih
    obtain rfl | below := atMost.eq_or_lt
    · have stays : value? (counterAt start n + 1.0) = some (4 * (2 ^ 51 : ℤ) : ℚ) :=
        Number.add_one_stays (by rw [number]; norm_num) (by norm_num) (by norm_num)
      exact ⟨2 ^ 53, by rw [counterAt, stays]; norm_num, le_rfl, .inl rfl⟩
    · have far := far.resolve_left below.ne
      have nonneg : (0 : ℚ) ≤ n / 2 := by positivity
      obtain ⟨q', number', result⟩ := Number.add_one_below number (by linarith) below
      refine ⟨q', number', ?_, ?_⟩
      · obtain rfl | ⟨-, bound⟩ := result
        · exact le_rfl
        · exact bound
      · obtain top | ⟨step, -⟩ := result
        · exact .inl top
        · right
          push_cast
          linarith

/-- There it comes to `2 ^ 53` and no further. -/
theorem exists_counter_lt_iff_below (h : value? start = some p) (low : -2 ^ 53 ≤ p)
    (high : p ≤ 2 ^ 53) :
    (∃ n q, value? (counterAt start n) = some q ∧ r < q) ↔ r < 2 ^ 53 := by
  constructor
  · rintro ⟨n, q, number, above⟩
    obtain ⟨q', number', atMost, -⟩ := counter_below h low high n
    obtain rfl : q = q' := Option.some.inj (number.symm.trans number')
    exact above.trans_le atMost
  · intro below
    obtain ⟨q, number, atMost, top | far⟩ := counter_below h low high (2 ^ 55 + 1)
    · exact ⟨_, q, number, by rwa [top]⟩
    · push_cast at far
      linarith

/-- Further out it comes to its rest with the first count. -/
theorem counter_beyond (h : value? start = some p) (out : 2 ^ 53 < p ∨ p < -2 ^ 53 - 2) :
    ∃ q, p ≤ q ∧ ∀ n, value? (counterAt start (n + 1)) = some q := by
  have big : 2 ^ 53 ≤ |p| := by
    rw [le_abs]
    obtain up | down := out
    · exact .inl up.le
    · exact .inr (by linarith)
  have ne : p ≠ -2 ^ 53 := by
    rintro rfl
    norm_num at out
  obtain ⟨k, number, next⟩ := Number.add_one_beyond h big ne
  refine ⟨4 * k, ?_, fun n => ?_⟩
  · obtain same | other := next <;> linarith
  · induction n with
    | zero => exact number
    | succ n ih =>
      have out' : 2 ^ 53 < (4 * k : ℚ) ∨ (4 * k : ℚ) < -2 ^ 53 := by
        obtain up | down := out
        · left
          obtain same | other := next <;> linarith
        · right
          obtain same | other := next <;> linarith
      refine Number.add_one_stays ih ?_ ?_
      · rw [le_abs]
        exact out'.imp le_of_lt fun down => by linarith
      · rintro same
        rw [same] at out'
        norm_num at out'

/-- The one double between the two ranges is followed by the least of the inner one. -/
theorem add_one_between (h : value? start = some p) (low : -2 ^ 53 - 2 ≤ p) (high : p < -2 ^ 53) :
    value? (start + 1.0) = some (-2 ^ 53) := by
  have big : 2 ^ 53 ≤ |p| := by
    rw [le_abs]
    exact .inr (by linarith)
  obtain ⟨k, number, next⟩ := Number.add_one_beyond h big high.ne
  have above : (-2 ^ 53 - 4 : ℚ) < 4 * k := by
    obtain same | other := next <;> linarith
  have below : (4 * k : ℚ) < -2 ^ 53 + 4 := by
    obtain same | other := next <;> linarith
  obtain rfl : k = -2 ^ 51 := by
    norm_cast at above below
    omega
  rw [number]
  norm_num

theorem exists_count (h : value? start = some p) (n : Nat) :
    ∃ q, value? (counterAt start n) = some q := by
  induction n with
  | zero => exact ⟨p, h⟩
  | succ n ih =>
    obtain ⟨q, number⟩ := ih
    obtain ⟨_, _, _, number'⟩ := Number.isRounded_add_one number
    exact ⟨_, number'⟩

/-- Some count is past the end if and only if the end is below the limit. -/
theorem exists_count_past_iff (hs : value? start = some p) (hl : value? last = some r) :
    (∃ n, ¬ counterAt start n ≤ last) ↔ last < counterLimit start := by
  have past (n : Nat) : ¬ counterAt start n ≤ last ↔
      ∃ q, value? (counterAt start n) = some q ∧ r < q := by
    obtain ⟨q, number⟩ := exists_count hs n
    rw [Number.le_iff number hl, not_le]
    simp [number]
  simp only [past]
  have lower := Number.le_iff value?_bottom hs
  have upper := Number.le_iff hs value?_top
  unfold counterLimit
  split
  · next inside =>
    rw [lower, upper] at inside
    obtain ⟨low, high⟩ := inside
    rw [Number.lt_iff hl value?_top]
    obtain inner | outer := le_or_gt (-2 ^ 53) p
    · exact exists_counter_lt_iff_below hs inner high
    · -- The first count is the least double of the inner range.
      have first := add_one_between hs low outer
      rw [← exists_counter_lt_iff_below first le_rfl (by norm_num)]
      constructor
      · rintro ⟨n, q, number, above⟩
        cases n with
        | zero =>
          obtain rfl : p = q := Option.some.inj (hs.symm.trans number)
          exact ⟨0, -2 ^ 53, first, by linarith⟩
        | succ n =>
          rw [counterAt_succ] at number
          exact ⟨n, q, number, above⟩
      · rintro ⟨n, q, number, above⟩
        exact ⟨n + 1, q, by rwa [counterAt_succ], above⟩
  · next outside =>
    obtain ⟨q, further, rest⟩ := counter_beyond hs (by
      rw [lower, upper, not_and_or, not_le, not_le] at outside
      exact outside.symm)
    have first : value? (start + 1.0) = some q := rest 0
    rw [Number.lt_iff hl first]
    constructor
    · rintro ⟨n, q', number, above⟩
      cases n with
      | zero =>
        obtain rfl : p = q' := Option.some.inj (hs.symm.trans number)
        linarith
      | succ n =>
        obtain rfl : q = q' := Option.some.inj ((rest n).symm.trans number)
        exact above
    · exact fun above => ⟨1, q, rest 0, above⟩

/-! ## Loops that go on forever -/

variable {host : Host} {span : Span} {counter : String} {body : List Stmt} {st : State}

/-- Every round that begins comes to its end. -/
def RoundsEnd (host : Host) (counter : String) (start last : Float) (body : List Stmt)
    (st : State) : Prop :=
  ∀ n begun, RoundBegins host counter start last body st n begun →
    ∃ after, ComesTo (fun fuel => (evaluator host fuel).block body begun) (.ok .normal after)

/-- Before each round, the counter may be bound. -/
def StaysFree (host : Host) (counter : String) (start last : Float) (body : List Stmt)
    (st : State) : Prop :=
  ∀ n mid, AfterRounds host counter start last body st n mid →
    mid.env.globals.isImmutable counter = false

/-- If the rounds come to their end, there are as many as one likes, or the loop ends earlier. -/
theorem RoundsEnd.rounds_or_end (h : RoundsEnd host counter start last body st) (span : Span)
    (n : Nat) : (∃ mid, AfterRounds host counter start last body st n mid) ∨
      ∃ k mid o, AfterRounds host counter start last body st k mid ∧
        LoopEnds host span counter start last body k mid o := by
  induction n with
  | zero => exact .inl ⟨st, .none⟩
  | succ n ih =>
    obtain ⟨mid, rounds⟩ | ended := ih
    · by_cases counts : counterAt start n ≤ last
      · cases bound : mid.env.globals.isImmutable counter with
        | true => exact .inr ⟨n, mid, _, rounds, .fixed counts bound⟩
        | false =>
          obtain ⟨after, ends⟩ := h n _ ⟨mid, rounds, counts, bound, rfl⟩
          exact .inl ⟨after, .next rounds counts bound ends⟩
      · exact .inr ⟨n, mid, _, rounds, .past counts⟩
    · exact .inr ended

/-- A loop that has a count past its end comes to an end, if its rounds do. -/
theorem RoundsEnd.exists_end (h : RoundsEnd host counter start last body st) (span : Span)
    (past : ∃ n, ¬ counterAt start n ≤ last) :
    ∃ n mid o, AfterRounds host counter start last body st n mid ∧
      LoopEnds host span counter start last body n mid o := by
  obtain ⟨n, beyond⟩ := past
  obtain ⟨mid, rounds⟩ | ended := h.rounds_or_end span n
  · exact ⟨n, mid, _, rounds, .past beyond⟩
  · exact ended

/-- If the counter may always be bound, a loop only ends with a count past its end. -/
theorem RoundsEnd.past_of_ends {n : Nat} {mid : State} {o : Outcome Flow}
    (h : RoundsEnd host counter start last body st)
    (free : StaysFree host counter start last body st)
    (rounds : AfterRounds host counter start last body st n mid)
    (ends : LoopEnds host span counter start last body n mid o) :
    ¬ counterAt start n ≤ last ∧ ∃ after, o = .ok .normal after := by
  cases ends with
  | past beyond => exact ⟨beyond, _, rfl⟩
  | fixed counts bound => simp [free n mid rounds] at bound
  | early counts bound stops unended =>
    obtain ⟨after, ended⟩ := h n _ ⟨mid, rounds, counts, bound, rfl⟩
    exact absurd (stops.unique ended) (unended after)

/-- A loop between finite ends, whose rounds come to their end, itself comes to an end if its end
is below the limit of its counter: then some count is past the end. Else none ever is, and unless
a round binds the counter for good, the loop goes on forever. -/
theorem a_counting_loop_ends_below_the_limit (host : Host) (span : Span) (counter : String)
    (first final : Expr) (body : List Stmt) (st st₁ st₂ : State) (start last : Float)
    (starts : ComesTo (fun fuel => evalExpr host fuel first st) (.ok (.number start) st₁))
    (stops : ComesTo (fun fuel => evalExpr host fuel final st₁) (.ok (.number last) st₂))
    (finite : start.isFinite = true) (finite' : last.isFinite = true)
    (always : RoundsEnd host counter start last body st₂) :
    let run : Nat → Outcome Flow := fun fuel =>
      runStmt host fuel (.at span (.loop counter first final body)) st
    ((∃ n, ¬ counterAt start n ≤ last) ↔ last < counterLimit start) ∧
    (last < counterLimit start → ∃ o, ComesTo run o) ∧
    (StaysFree host counter start last body st₂ →
      (last < counterLimit start → ∃ after, ComesTo run (.ok .normal after)) ∧
      (¬ last < counterLimit start → ∀ fuel, run fuel = .broken .outOfFuel)) := by
  intro run
  obtain ⟨p, hs⟩ := Number.isFinite_iff.1 finite
  obtain ⟨r, hl⟩ := Number.isFinite_iff.1 finite'
  have past := exists_count_past_iff hs hl
  refine ⟨past, fun below => ?_, fun free => ?_⟩
  · cases bound : st₂.env.globals.isImmutable counter with
    | true => exact ⟨_, comesTo_loop_of_immutable starts stops bound⟩
    | false =>
      obtain ⟨n, mid, o, rounds, ends⟩ := always.exists_end span (past.2 below)
      exact ⟨o, (comesTo_loop starts stops bound).2 ⟨n, mid, rounds, ends⟩⟩
  · have loop (o : Outcome Flow) : ComesTo run o ↔
        ∃ n mid, AfterRounds host counter start last body st₂ n mid ∧
          LoopEnds host span counter start last body n mid o :=
      comesTo_loop starts stops (free 0 st₂ .none)
    refine ⟨fun below => ?_, fun above fuel => ?_⟩
    · obtain ⟨n, mid, o, rounds, ends⟩ := always.exists_end span (past.2 below)
      obtain ⟨-, after, rfl⟩ := always.past_of_ends free rounds ends
      exact ⟨after, (loop _).2 ⟨n, mid, rounds, ends⟩⟩
    · by_contra unspent
      obtain ⟨n, mid, rounds, ends⟩ := (loop _).1 (comesTo_stmt rfl unspent)
      obtain ⟨beyond, -⟩ := always.past_of_ends free rounds ends
      exact above (past.1 ⟨n, beyond⟩)

/-- The loop `loop (i, 9007199254740992, 9007199254740992) { }` goes on forever. -/
theorem a_loop_of_one_count_that_goes_on_forever :
    let top : Expr := .at ⟨9, 25⟩ (.number 9007199254740992)
    let top' : Expr := .at ⟨27, 43⟩ (.number 9007199254740992)
    ∀ fuel, runStmt ⟨Files.inMemory, none⟩ fuel (.at ⟨0, 48⟩ (.loop "i" top top' []))
      State.initial = .broken .outOfFuel := by
  intro top top'
  have literal (span : Span) (x : Float) : ComesTo (fun fuel =>
      evalExpr ⟨Files.inMemory, none⟩ fuel (.at span (.number x)) State.initial)
      (.ok (.number x) State.initial) :=
    comesTo_succ.1 ⟨by simp, .of_forall fun _ => rfl⟩
  have empty (begun : State) : ComesTo (fun fuel =>
      (evaluator ⟨Files.inMemory, none⟩ fuel).block [] begun) (.ok .normal begun) :=
    ⟨by simp, .of_forall fun _ => rfl⟩
  obtain ⟨-, -, whole⟩ := a_counting_loop_ends_below_the_limit ⟨Files.inMemory, none⟩ ⟨0, 48⟩ "i"
    top top' [] State.initial _ _ 9007199254740992 9007199254740992 (literal ⟨9, 25⟩ _)
    (literal ⟨27, 43⟩ _) (by decide +kernel) (by decide +kernel)
    fun _ begun _ => ⟨begun, empty begun⟩
  refine (whole ?_).2 (by decide +kernel)
  rintro n mid rounds
  cases rounds with
  | none => rfl
  | next _ _ _ ends =>
    obtain ⟨-, rfl⟩ := Outcome.ok.inj ((empty _).unique ends)
    exact isImmutable_counted

end BraceScript
