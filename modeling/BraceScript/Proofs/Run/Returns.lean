-- A `return` ends the function it stands in and nothing else. A program and
-- the files that it connects are run to their last statement, unless one of
-- the statements fails.
import BraceScript.Proofs.Run.Connected

namespace BraceScript

variable {host : Host} {ev : Evaluator} {ss : List Stmt}

/-- Statements one after the other, whatever they end with. -/
def Evaluator.row (ev : Evaluator) (ss : List Stmt) : Exec Unit :=
  ss.forM fun s => do
    let _ ← ev.stmt s

theorem Evaluator.row_cons (s : Stmt) (ss : List Stmt) (st : State) :
    ev.row (s :: ss) st = (ev.stmt s st).andThen fun _ => ev.row ss := by
  change ((do let _ ← ev.stmt s) >>= fun _ => ev.row ss) st = _
  rw [Exec.bind_eq_andThen, Exec.bind_eq_andThen]
  cases ev.stmt s st <;> rfl

/-- A block leaves none of its statements out, if none of them returns. -/
theorem void_block (normally : ∀ s ∈ ss, (ev.stmt s).EndsNormally) (st : State) :
    (ev.block ss st).void = ev.row ss st := by
  induction ss generalizing st with
  | nil => rfl
  | cons s ss ih =>
    have rest := ih fun s hs => normally s (List.mem_cons_of_mem _ hs)
    rw [Evaluator.row_cons, Evaluator.block, Exec.bind_eq_andThen]
    cases ends : ev.stmt s st with
    | ok flow mid =>
      cases flow with
      | normal => exact rest mid
      | returned v => exact absurd ends (normally s List.mem_cons_self st v mid)
    | failed | broken => rfl

/-- A statement of a program that is not in the body of a function there is no `return` and
ends at its end; so do the program as a whole and the program as a block that is joined. All of
the statements are run one after the other, in a source as in a file that is connected. -/
theorem no_return_leaves_a_program {source : String} (program : parse source = .ok ss) :
    (∀ s ∈ ss, ∀ n : Node, n.Outside (.stmt s) → n.isReturn = false) ∧
    ∀ host fuel,
      let ev := evaluator host fuel
      (∀ s ∈ ss, ∀ s', (Node.stmt s').Outside (.stmt s) → (ev.stmt s').EndsNormally) ∧
      (ev.block ss).EndsNormally ∧ (joinAll ev none none ss).EndsNormally ∧
      (∀ st, runSource host fuel source none st = ev.row ss st ∧
        ∀ name, runSource host fuel source (some name) st =
          Exec.withFile (host.resolve st.includes name) (ev.row ss) st) ∧
      ∀ st span name, (connect host ev span name).EndsNormally ∧
        let path := host.resolve st.includes name
        (name.endsWith ".kq" = true → st.includes.contains path = false →
          host.files.find? path = some (.text source) →
          connect host ev span name st =
            (Exec.withFile path (ev.row ss) st).connected path name) := by
  have returnless := returnless_of_parse program
  refine ⟨returnless, fun host fuel => ?_⟩
  intro ev
  have each (s : Stmt) (hs : s ∈ ss) : (ev.stmt s).EndsNormally :=
    endsNormally_of_returnless (returnless s hs) fuel
  have row (st : State) : (ev.block ss st).void = ev.row ss st := void_block each st
  refine ⟨fun s hs s' below => endsNormally_of_returnless ((returnless s hs).of_outside below) fuel,
    endsNormally_block each, endsNormally_joinAll each none, fun st => ⟨?_, fun name => ?_⟩,
    fun st span name => ⟨endsNormally_connect span name, fun kq new file => ?_⟩⟩
  · rw [← row, ← runText_of_program program]
    rfl
  · rw [Exec.withFile_apply, ← row]
    exact Source.run_program ⟨source, some name⟩ program host fuel st
  · rw [connect_of_file ⟨kq, rfl, new, source, file, program⟩, row]
    rfl

/-- A function that returns is called in a block of its own, and nothing is left out behind it. -/
theorem a_function_is_called_in_a_joined_block :
    let source := "func f() \x7b return 1 \x7d async \x7b show f() \x7d show 2"
    let host : Host := ⟨Files.inMemory, none⟩
    ∃ ss mid, parse source = .ok ss ∧
      (∀ s ∈ ss, ∀ n : Node, n.Outside (.stmt s) → n.isReturn = false) ∧
      (evaluator host 9).block ss .initial = .ok .normal mid ∧
      runSource host 9 source none .initial = (evaluator host 9).row ss .initial ∧
      mid.output = #[⟨.info, "1"⟩, ⟨.info, "2"⟩] := by
  intro source host
  obtain ⟨ss, program⟩ : ∃ ss, parse source = .ok ss := exists_of_isOk (by decide +kernel)
  have output : (runSource host 9 source none .initial).state?.map State.output =
      some #[⟨.info, "1"⟩, ⟨.info, "2"⟩] := by decide +kernel
  have ends : (runSource host 9 source none .initial).isOk = true := by decide +kernel
  obtain ⟨outside, runs⟩ := no_return_leaves_a_program program
  obtain ⟨-, normally, -, row, -⟩ := runs host 9
  have void : runSource host 9 source none .initial =
      ((evaluator host 9).block ss .initial).void := runText_of_program program _ _
  rw [void] at output ends
  cases block : (evaluator host 9).block ss .initial with
  | ok flow mid =>
    rw [block] at output
    cases flow with
    | normal => exact ⟨ss, mid, program, outside, block, (row .initial).1, Option.some.inj output⟩
    | returned v => exact absurd block (normally .initial v mid)
  | failed | broken => rw [block] at ends; cases ends

end BraceScript
