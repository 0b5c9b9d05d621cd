-- Outside of functions there is no `return`, so statements that stand there
-- end at their end, and rows of them run one after the other.
import BraceScript.Proofs.Grammar.Returns
import BraceScript.Proofs.Run.Outcomes
import BraceScript.Run.Program

namespace BraceScript

open Grammar

variable {α : Type} {host : Host} {ev : Evaluator}

/-! ## Steps that never return -/

/-- The step may fail, but it does not end with a `return`. -/
def Exec.EndsNormally (x : Exec Flow) : Prop := ∀ st v mid, x st ≠ .ok (.returned v) mid

namespace Exec.EndsNormally

theorem normal : (pure .normal : Exec Flow).EndsNormally := by
  rintro st v mid ⟨⟩

theorem stop (reason : Break) : (Exec.stop reason : Exec Flow).EndsNormally := by
  rintro st v mid ⟨⟩

theorem failAt (span : Span) (cause : Fault.Cause) :
    (Exec.failAt span cause : Exec Flow).EndsNormally := by
  rintro st v mid ⟨⟩

theorem bind {x : Exec α} {f : α → Exec Flow} (hf : ∀ v, (f v).EndsNormally) :
    (x >>= f).EndsNormally := by
  intro st v mid
  rw [Exec.bind_apply]
  split
  · exact hf _ _ v mid
  · simp
  · simp

theorem within {x : Exec Flow} (span : Span) (hx : x.EndsNormally) :
    (Exec.within span x).EndsNormally := by
  intro st v mid
  have := hx st v mid
  rw [Exec.within_apply]
  cases h : x st <;> simp_all [Outcome.refault]

/-- One step after the other, unless the first one returns. -/
theorem andThen {x y : Exec Flow} (hx : x.EndsNormally) (hy : y.EndsNormally) :
    (x >>= fun
      | .normal => y
      | .returned v => pure (.returned v)).EndsNormally := by
  intro st v mid
  rw [Exec.bind_apply]
  split
  · next flow mid' heq =>
    cases flow with
    | normal => exact hy mid' v mid
    | returned w => exact absurd heq (hx _ _ _)
  · simp
  · simp

end Exec.EndsNormally

theorem endsNormally_block {ss : List Stmt} (h : ∀ s ∈ ss, (ev.stmt s).EndsNormally) :
    (ev.block ss).EndsNormally := by
  induction ss with
  | nil => exact .normal
  | cons s ss ih => exact .andThen (h s (by simp)) (ih fun s hs => h s (by simp [hs]))

theorem endsNormally_branch {c : Expr} {ss : List Stmt} {other : Option (List Stmt)}
    (h : (ev.block ss).EndsNormally) (h' : (ev.block (other.getD [])).EndsNormally) :
    (branch ev c ss other).EndsNormally :=
  .bind fun b => by cases b <;> assumption

theorem endsNormally_whileLoop {c : Expr} {ss : List Stmt} (h : (ev.block ss).EndsNormally)
    (rounds : Nat) : (whileLoop ev c ss rounds).EndsNormally := by
  induction rounds with
  | zero => exact .stop _
  | succ rounds ih =>
    refine .bind fun b => ?_
    cases b with
    | false => exact .normal
    | true => exact .andThen h ih

theorem endsNormally_countRounds {counter : String} {last : Float} {ss : List Stmt}
    (h : (ev.block ss).EndsNormally) (rounds : Nat) (x : Float) :
    (countRounds ev counter last ss rounds x).EndsNormally := by
  induction rounds generalizing x with
  | zero => exact .stop _
  | succ rounds ih =>
    unfold countRounds
    split
    · exact .bind fun _ => .andThen h (ih _)
    · exact .normal

theorem endsNormally_countLoop {rounds : Nat} {counter : String} {a b : Expr} {ss : List Stmt}
    (h : (ev.block ss).EndsNormally) :
    (countLoop ev rounds counter a b ss).EndsNormally := by
  refine .bind fun x => .bind fun y => .bind fun _ st v mid => ?_
  have rest : ∀ w, countRounds ev counter y ss rounds x st ≠ .ok (.returned v) w :=
    endsNormally_countRounds h rounds x st v
  unfold Exec.afterwards
  split
  · simp_all
  · simp
  · simp

theorem endsNormally_joinAll {ss : List Stmt} (h : ∀ s ∈ ss, (ev.stmt s).EndsNormally)
    (fault : Option Fault) : (joinAll ev fault none ss).EndsNormally := by
  induction ss generalizing fault with
  | nil => cases fault <;> rintro st v mid ⟨⟩
  | cons s ss ih =>
    intro st v mid
    have rest := fun fault => ih (fun s hs => h s (by simp [hs])) fault
    have first := h s (by simp) st
    unfold joinAll
    split
    · exact rest _ _ v mid
    · simp_all
    · exact rest _ _ v mid
    · simp

theorem endsNormally_connect (span : Span) (name : String) :
    (connect host ev span name).EndsNormally := by
  unfold connect
  split
  · exact .failAt _ _
  refine .bind fun st => ?_
  dsimp only
  split
  · exact .failAt _ _
  refine .bind fun source st v mid => ?_
  split <;> simp

/-! ## Statements outside of functions -/

theorem endsNormally_of_returnless {s : Stmt} (h : (Node.stmt s).Returnless) (fuel : Nat) :
    ((evaluator host fuel).stmt s).EndsNormally := by
  induction fuel generalizing s with
  | zero => exact .stop _
  | succ fuel ih =>
    obtain ⟨span, form⟩ := s
    obtain ⟨own, parts⟩ := Node.returnless_iff.1 h
    have block {ss : List Stmt} (below : ∀ s ∈ ss, .stmt s ∈ (Node.stmt (.at span form)).ownParts) :
        ((evaluator host fuel).block ss).EndsNormally :=
      endsNormally_block fun s hs => ih (parts _ (below s hs))
    refine .within span ?_
    cases form with
    | declare | print => exact .bind fun _ => .bind fun _ => .normal
    | assign => exact .bind fun _ => .bind fun _ => .bind fun _ => .normal
    | function | deleteVariable | deleteFunction | value => exact .bind fun _ => .normal
    | «return» => cases own
    | branch c ss ss' =>
      refine endsNormally_branch (block fun s hs => ?_) (block fun s hs => ?_) <;>
        simp [Node.ownParts, Node.parts, Stmt.form, StmtForm.parts, hs]
    | loop =>
      exact endsNormally_countLoop (block fun s hs =>
        List.mem_cons_of_mem _ (List.mem_cons_of_mem _ (List.mem_map_of_mem hs)))
    | «while» =>
      exact endsNormally_whileLoop (block fun s hs =>
        List.mem_cons_of_mem _ (List.mem_map_of_mem hs)) _
    | connect => exact endsNormally_connect _ _
    | async ss =>
      exact endsNormally_joinAll (fun s hs => ih (parts _ (List.mem_map_of_mem hs))) none

/-- The statements of a program end normally. -/
theorem endsNormally_of_program {longest : Bool} {ts : List Token} {ss : List Stmt}
    (h : Program longest ts ss) (fuel : Nat) :
    ((evaluator host fuel).block ss).EndsNormally :=
  endsNormally_block fun s hs => endsNormally_of_returnless (h.returnless rfl s hs) fuel

/-! ## Rows of statements -/

/-- Two rows in one do what they do one after the other, unless the first one returns. -/
theorem block_append (ss ss' : List Stmt) (st : State) :
    ev.block (ss ++ ss') st = (ev.block ss st).andThen fun
      | .normal => ev.block ss'
      | .returned v => pure (.returned v) := by
  induction ss generalizing st with
  | nil => rfl
  | cons s ss ih =>
    rw [List.cons_append, Evaluator.block, Evaluator.block, Exec.bind_eq_andThen,
      Exec.bind_eq_andThen]
    cases ev.stmt s st with
    | ok flow mid =>
      cases flow with
      | normal => exact ih mid
      | returned v => rfl
    | failed f mid => rfl
    | broken reason => rfl

end BraceScript
