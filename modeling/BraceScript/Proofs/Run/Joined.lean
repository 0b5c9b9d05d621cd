-- Two programs with a line break between them do what they do one after the
-- other. The later one then stands further to the right, and nothing but the
-- places of its faults and of its functions shows that.
import BraceScript.Proofs.Grammar.Breaks
import BraceScript.Proofs.Run.Course
import BraceScript.Proofs.Run.Normal
import BraceScript.Proofs.Run.UpToPlaces

namespace BraceScript

variable {host : Host} {ev : Evaluator} {home : Home} {st : State} {fuel : Nat}

/-! ## The files in progress -/

/-- The outcome leaves the files in progress as they are. -/
def Outcome.KeepsIncludes {α : Type} (o : Outcome α) (st : State) : Prop :=
  ∀ st' ∈ o.state?, st'.includes = st.includes

theorem Change.includes {st' : State} (c : Change home st st') : st'.includes = st.includes := by
  cases c <;> rfl

/-- One level of a run is done with all the files that it has entered. -/
theorem Threads.keepsIncludes {vs : List Visit} {o : Outcome Unit}
    (each : ∀ n st, (ev.run n st).KeepsIncludes st) (h : Threads host ev home st vs o) :
    o.KeepsIncludes st := by
  induction h with
  | done =>
    rintro st' ⟨⟩
    rfl
  | change c =>
    rintro st' ⟨⟩
    exact c.includes
  | raise =>
    rintro st' ⟨⟩
    rfl
  | stop => rintro st' ⟨⟩
  | visit => exact each _ _
  | andThen _ _ ih ih' => exact fun st' hst' => (ih' st' hst').trans (ih _ rfl)
  | joined _ hrun _ ih =>
    have first := each _ _ _ (by rw [hrun]; rfl)
    exact fun st' hst' => (ih st' (by simpa using hst')).trans first
  | @call _ st mid _ _ _ _ _ _ _ _ _ _ _ ih ih' =>
    have called : mid.includes = st.includes := ih mid rfl
    intro st' hst'
    rw [Outcome.state?_change] at hst'
    obtain ⟨last, hlast, rfl⟩ := Option.map_eq_some_iff.1 hst'
    exact (ih' last hlast).trans called
  | file _ _ _ _ _ ih =>
    intro st' hst'
    rw [Outcome.state?_refault, Outcome.state?_change] at hst'
    obtain ⟨last, hlast, rfl⟩ := Option.map_eq_some_iff.1 hst'
    simp only [ih last hlast, List.tail_cons]
  | loop _ _ ih =>
    intro st' hst'
    rw [Outcome.state?_change] at hst'
    obtain ⟨last, hlast, rfl⟩ := Option.map_eq_some_iff.1 hst'
    exact ih last hlast

theorem keepsIncludes_run (host : Host) (fuel : Nat) (n : Node) (st : State) :
    ((evaluator host fuel).run n st).KeepsIncludes st := by
  induction fuel generalizing n st with
  | zero =>
    cases n with
    | text source =>
      cases hp : parse source <;>
        simp [Outcome.KeepsIncludes, Evaluator.run, hp, Outcome.state?]
    | _ => simp [Outcome.KeepsIncludes, Evaluator.run, evaluator, evalExpr, runStmt,
        Exec.bind_apply, Exec.stop, Outcome.state?]
  | succ fuel ih =>
    obtain ⟨o, threads, hrun⟩ := threads_run host fuel n st
    unfold Outcome.KeepsIncludes
    rw [hrun, Outcome.state?_refault]
    exact threads.keepsIncludes ih

theorem keepsIncludes_block (host : Host) (fuel : Nat) (ss : List Stmt) (st : State) :
    ((evaluator host fuel).block ss st).KeepsIncludes st := by
  have threads : Threads host (evaluator host fuel) (.body ss) st _ _ :=
    threads_block fun s hs => List.mem_map_of_mem hs
  have kept := threads.keepsIncludes (keepsIncludes_run host fuel)
  rwa [Outcome.KeepsIncludes, Outcome.state?_void] at kept

/-! ## Sources -/

theorem keepsIncludes_runSource (host : Host) (fuel : Nat) (source : String)
    (origin : Option String) (st : State) :
    (runSource host fuel source origin st).KeepsIncludes st := by
  let home : Source := ⟨source, origin⟩
  obtain ⟨o, threads, hrun⟩ := home.threads_run host fuel st
  intro st' ends
  change st' ∈ (home.run host fuel st).state? at ends
  rw [hrun, Outcome.state?_change] at ends
  obtain ⟨last, hlast, rfl⟩ := Option.map_eq_some_iff.1 ends
  have kept : last.includes = (home.enter host st).includes :=
    threads.keepsIncludes (keepsIncludes_run host fuel) last hlast
  unfold Source.enter at kept
  unfold Source.leave
  cases ho : home.origin <;> rw [ho] at kept
  · exact kept
  · exact congrArg List.tail kept

/-- A program that comes from where the source comes from runs its statements in between. -/
theorem Source.run_program (source : Source) {text : String} {ss : List Stmt}
    (program : parse text = .ok ss) (host : Host) (fuel : Nat) (st : State) :
    runSource host fuel text source.origin st =
      ((evaluator host fuel).block ss (source.enter host st)).void.change source.leave := by
  unfold runSource enter leave
  rw [program]
  cases source.origin with
  | none =>
    simp only [Exec.bind_apply]
    cases (evaluator host fuel).block ss st <;> rfl
  | some name =>
    dsimp only
    rw [Exec.get_bind, Exec.withFile_apply, Exec.bind_apply]
    cases (evaluator host fuel).block ss
      { st with includes := host.resolve st.includes name :: st.includes } <;> rfl

/-- After a source has come to its end, the next one from the same file begins where that has
left off. -/
theorem Source.enter_leave (source : Source) {mid : State}
    (h : mid.includes = (source.enter host st).includes) :
    source.enter host (source.leave mid) = mid := by
  unfold enter leave at *
  cases ho : source.origin with
  | none => rfl
  | some name =>
    rw [ho] at h
    dsimp only at h ⊢
    rw [h, List.tail_cons, ← h]

/-! ## One after the other -/

/-- The same up to places, and the same lines have been printed. -/
structure State.SameWithOutput (st st' : State) : Prop where
  same : st.SameUpToPlaces st'
  output : st.output = st'.output

theorem State.SameWithOutput.refl (st : State) : st.SameWithOutput st := ⟨⟨rfl, rfl, rfl⟩, rfl⟩

/-- Rows of statements that differ in nothing but their places do the same. -/
theorem block_of_bare (host : Host) (fuel : Nat) {ss ss' : List Stmt} {st st' : State}
    (related : st.SameWithOutput st') (h : ss.map Stmt.bare = ss'.map Stmt.bare) :
    ((evaluator host fuel).block ss st).InStep State.SameWithOutput
      ((evaluator host fuel).block ss' st') := by
  have both := inStep_of_bare host fuel #[] h st st' ⟨related.same, by simp [related.output]⟩
  generalize (evaluator host fuel).block ss st = o, (evaluator host fuel).block ss' st' = o' at both
  have sharpen {st st' : State} (h : State.Follows #[] st st') : st.SameWithOutput st' :=
    ⟨h.same, by simpa using h.output.symm⟩
  cases both with
  | ok related => exact .ok (sharpen related)
  | failed same related => exact .failed same (sharpen related)
  | broken => exact .broken

theorem Source.sameWithOutput_leave (source : Source) {st st' : State}
    (h : st.SameWithOutput st') : (source.leave st).SameWithOutput (source.leave st') := by
  unfold leave
  cases source.origin with
  | none => exact h
  | some name => exact ⟨⟨h.same.env, h.same.heap, congrArg List.tail h.same.includes⟩, h.output⟩

/-- Two programs with a line break between them are one program: the statements of the earlier
one, and behind them those of the later one, moved by the length of the earlier one and the break,
as far as spans can hold that; so in a text of less than 2^32 bytes they are just moved. It does
what the two do one after the other. If the earlier one fails, so does the whole, in the same way;
else it comes to what the later one comes to from there, up to places. -/
theorem joined_programs_run_one_after_the_other {source₁ source₂ : String} {ss₁ ss₂ : List Stmt}
    (program₁ : parse source₁ = .ok ss₁) (program₂ : parse source₂ = .ok ss₂) :
    parse (source₁ ++ "\n" ++ source₂) = .ok (ss₁ ++
      ss₂.map (Stmt.move fun offset => Span.hold (offset + (source₁.utf8ByteSize + 1)))) ∧
    ((source₁ ++ "\n" ++ source₂).utf8ByteSize ≤ Span.limit →
      parse (source₁ ++ "\n" ++ source₂) =
        .ok (ss₁ ++ ss₂.map (Stmt.move (· + (source₁.utf8ByteSize + 1))))) ∧
    ∀ host fuel origin st,
      match runSource host fuel source₁ origin st with
      | .ok () mid => (runSource host fuel source₂ origin mid).InStep State.SameWithOutput
          (runSource host fuel (source₁ ++ "\n" ++ source₂) origin st)
      | early => runSource host fuel (source₁ ++ "\n" ++ source₂) origin st = early := by
  have program := parse_join program₁ program₂
  refine ⟨program, parse_join_of_le program₁ program₂, fun host fuel origin st => ?_⟩
  let home : Source := ⟨source₁, origin⟩
  have first := home.run_program program₁ host fuel st
  have whole := home.run_program program host fuel st
  rw [block_append] at whole
  dsimp only [home] at first whole
  rw [first, whole]
  cases h : (evaluator host fuel).block ss₁ (home.enter host st) with
  | failed | broken => rfl
  | ok flow mid =>
    cases flow with
    | returned v =>
      obtain ⟨ts, -, derived⟩ := (parse_eq_ok_iff source₁ ss₁).1 program₁
      exact absurd h (endsNormally_of_program derived fuel _ _ _)
    | normal =>
      have kept : mid.includes = (home.enter host st).includes :=
        keepsIncludes_block host fuel ss₁ _ mid (by rw [h]; rfl)
      have second := home.run_program program₂ host fuel (home.leave mid)
      rw [home.enter_leave kept] at second
      dsimp only [Outcome.void, Outcome.change, home] at second ⊢
      rw [second]
      exact (block_of_bare host fuel (.refl mid) (by simp)).void.change fun _ _ =>
        home.sameWithOutput_leave

/-- Behind 2^32 blanks and a break no span can tell how far a statement has been moved. -/
theorem a_statement_moved_beyond_the_limit :
    let blanks := indented (Span.limit + 1) ""
    ∃ ss, parse blanks = .ok [] ∧ parse "delvar a" = .ok ss ∧
      parse (blanks ++ "\n" ++ "delvar a") ≠
        .ok ([] ++ ss.map (Stmt.move (· + (blanks.utf8ByteSize + 1)))) := by
  intro blanks
  let delete : Stmt := .at ⟨0, 8⟩ (.deleteVariable "a")
  have nothing : parse "" = .ok [] :=
    (parse_eq_ok_iff _ _).2 ⟨[], tokens_eq_ok_iff.2 (by decide +kernel), .nil⟩
  have blank : parse blanks = .ok [] := parse_indented (Nat.le_succ _) nothing
  have program : parse "delvar a" = .ok [delete] :=
    let ts : List Token := [⟨.keyword .delvar, ⟨0, 6⟩⟩, ⟨.name "a", ⟨7, 8⟩⟩]
    (parse_eq_ok_iff _ _).2 ⟨ts, tokens_eq_ok_iff.2 (by decide +kernel),
      .cons (.stmt .deleteVariable) .nil⟩
  refine ⟨[delete], blank, program, fun moved => ?_⟩
  rw [parse_join blank program] at moved
  have starts := congrArg (List.map fun s : Stmt => s.span.start) (Except.ok.inj moved)
  simp only [List.nil_append, List.map_cons, List.map_nil, Stmt.span_move, Span.move,
    List.cons.injEq, and_true] at starts
  have size : blanks.utf8ByteSize = Span.limit + 1 + "".utf8ByteSize :=
    utf8ByteSize_indented _ _
  have held := Span.hold_le (delete.span.start + (blanks.utf8ByteSize + 1))
  omega

/-- The later one calls what the earlier one has defined. -/
theorem a_call_behind_a_function :
    let host : Host := ⟨Files.inMemory, none⟩
    let earlier := "func f() \x7b show 7 \x7d"
    ∃ ss₁ ss₂ mid, parse earlier = .ok ss₁ ∧ parse "f()" = .ok ss₂ ∧
      parse (earlier ++ "\n" ++ "f()") = .ok (ss₁ ++ ss₂.map (Stmt.move (· + 20))) ∧
      runSource host 9 earlier none .initial = .ok () mid ∧
      (runSource host 9 "f()" none mid).InStep State.SameWithOutput
        (runSource host 9 (earlier ++ "\n" ++ "f()") none .initial) ∧
      (runSource host 9 (earlier ++ "\n" ++ "f()") none .initial).state?.map State.output =
        some #[⟨.info, "7"⟩] := by
  intro host earlier
  obtain ⟨ss₁, program₁⟩ : ∃ ss₁, parse earlier = .ok ss₁ := exists_of_isOk (by decide +kernel)
  obtain ⟨ss₂, program₂⟩ : ∃ ss₂, parse "f()" = .ok ss₂ := exists_of_isOk (by decide +kernel)
  obtain ⟨-, joined, runs⟩ := joined_programs_run_one_after_the_other program₁ program₂
  have short : (earlier ++ "\n" ++ "f()").utf8ByteSize ≤ Span.limit := by decide +kernel
  have ends : (runSource host 9 earlier none .initial).isOk = true := by decide +kernel
  have output : (runSource host 9 (earlier ++ "\n" ++ "f()") none .initial).state?.map
      State.output = some #[⟨.info, "7"⟩] := by decide +kernel
  obtain ⟨⟨⟩, mid, first⟩ := Outcome.exists_of_isOk ends
  have both := runs host 9 none .initial
  rw [first] at both
  exact ⟨ss₁, ss₂, mid, program₁, program₂, joined short, first, both, output⟩

end BraceScript
