-- Running whole programs: the parts are put together here, and sources are
-- run one after the other on one state.
import BraceScript.Run.Statement

namespace BraceScript

/-! ## The evaluator

The number bounds how deep the parts of a program are entered and how many
rounds each loop makes. A run that ends does so for every larger number. -/

mutual

/-- The value of an expression. -/
def evalExpr (host : Host) : Nat → Expr → Exec Value
  | 0, _ => Exec.stop .outOfFuel
  | fuel + 1, .at span form =>
    Exec.within span (valueOf host ⟨evalExpr host fuel, runStmt host fuel⟩ form)

/-- What a statement does. -/
def runStmt (host : Host) : Nat → Stmt → Exec Flow
  | 0, _ => Exec.stop .outOfFuel
  | fuel + 1, .at span form =>
    Exec.within span (perform host ⟨evalExpr host fuel, runStmt host fuel⟩ fuel span form)

end

/-- The evaluator with a given bound. -/
def evaluator (host : Host) (fuel : Nat) : Evaluator := ⟨evalExpr host fuel, runStmt host fuel⟩

/-! ## Sources -/

/-- Runs a source text. The origin names the file that it came from: relative
paths start there, and connecting that file from within is circular. -/
def runSource (host : Host) (fuel : Nat) (source : String) (origin : Option String) :
    Exec Unit :=
  match parse source with
  | .error e => fun st => .failed (Fault.ofSyntaxError e) st
  | .ok stmts => do
    let body : Exec Unit := do
      let _ ← (evaluator host fuel).block stmts
    match origin with
    | none => body
    | some name => do
      let path := host.resolve (← Exec.get).includes name
      Exec.withFile path body

/-- A bound, 2^62, that no program reaches that ends within a lifetime. -/
def patience : Nat := 4611686018427387904

end BraceScript
