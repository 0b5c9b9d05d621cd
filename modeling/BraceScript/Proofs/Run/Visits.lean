-- Which nodes of a program are run while one of them is run. A node runs
-- the nodes below it, those in the body of a function that it calls, and
-- those of a file that it connects, one after the other, and none of them
-- more than one level down: what these run in turn is theirs.
import BraceScript.Proofs.Nodes
import BraceScript.Run.Program

namespace BraceScript

variable {α β : Type}

/-- What a node can run others inside of. -/
inductive Setting where
  | call (function : Function)
  | file (path : Path)
  | loop (counter : String)

/-- A node that is about to be run, the state it is run in, and what it is run inside of
(the innermost first). -/
structure Visit where
  node : Node
  state : State
  settings : List Setting

namespace Visit

def inside (setting : Setting) (v : Visit) : Visit :=
  { v with settings := v.settings ++ [setting] }

/-- A node that stands right below the one that is being run. -/
def expr (e : Expr) (st : State) : Visit := ⟨.expr e, st, []⟩

def stmt (s : Stmt) (st : State) : Visit := ⟨.stmt s, st, []⟩

end Visit

/-- The visits after a step, if it came to a value. -/
def Outcome.onward (o : Outcome α) (f : α → State → List Visit) : List Visit :=
  match o with
  | .ok v st => f v st
  | _ => []

namespace Evaluator

/-! ## Expressions -/

def visitAll (ev : Evaluator) : List Expr → State → List Visit
  | [], _ => []
  | e :: es, st => .expr e st :: (ev.expr e st).onward fun _ st => ev.visitAll es st

def visitBlock (ev : Evaluator) : List Stmt → State → List Visit
  | [], _ => []
  | s :: ss, st => .stmt s st :: (ev.stmt s st).onward fun flow st =>
    match flow with
    | .normal => ev.visitBlock ss st
    | .returned _ => []

def visitCall (ev : Evaluator) (name : String) (arguments : List Expr) (st : State) :
    List Visit :=
  match st.env.function? name with
  | none => []
  | some f =>
    if f.params.length < arguments.length then []
    else ev.visitAll arguments st ++ (ev.all arguments st).onward fun values st =>
      match callFrame f.params values Scope.empty with
      | .error _ => []
      | .ok frame =>
        (ev.visitBlock f.body { st with env := st.env.pushFrame frame }).map
          (Visit.inside (.call f))

def visitBinary (ev : Evaluator) (op : BinaryOperator) (left right : Expr) (st : State) :
    List Visit :=
  match op with
  | .and => .expr left st :: (ev.holds left st).onward fun b st =>
    if b then [.expr right st] else []
  | .or => .expr left st :: (ev.holds left st).onward fun b st =>
    if b then [] else [.expr right st]
  | _ => ev.visitAll [left, right] st

/-- The nodes that an expression runs, in the order in which it does so. -/
def visitValue (ev : Evaluator) : ExprForm → State → List Visit
  | .array items, st => ev.visitAll items st
  | .binary op left right, st => ev.visitBinary op left right st
  | .call function arguments, st => ev.visitCall function arguments st
  | .unary _ e, st | .read e, st | .toJson e, st | .parseJson e, st | .math _ e, st
  | .textual _ e, st => [.expr e st]
  | .index array e, st | .append array e, st | .remove array e, st =>
    (namedArray array st).onward fun _ st => [.expr e st]
  | _, _ => []

/-! ## Statements -/

def visitBranch (ev : Evaluator) (condition : Expr) (thenBlock elseBlock : List Stmt)
    (st : State) : List Visit :=
  .expr condition st :: (ev.holds condition st).onward fun b st =>
    if b then ev.visitBlock thenBlock st else ev.visitBlock elseBlock st

def visitWhile (ev : Evaluator) (condition : Expr) (body : List Stmt) : Nat → State → List Visit
  | 0, _ => []
  | rounds + 1, st => .expr condition st :: (ev.holds condition st).onward fun b st =>
    if b then ev.visitBlock body st ++ (ev.block body st).onward fun flow st =>
      match flow with
      | .normal => ev.visitWhile condition body rounds st
      | .returned _ => []
    else []

def visitRounds (ev : Evaluator) (counter : String) (last : Float) (body : List Stmt) :
    Nat → Float → State → List Visit
  | 0, _, _ => []
  | rounds + 1, x, st =>
    if x ≤ last then (setCounter counter x st).onward fun _ st =>
      ev.visitBlock body st ++ (ev.block body st).onward fun flow st =>
        match flow with
        | .normal => ev.visitRounds counter last body rounds (x + 1.0) st
        | .returned _ => []
    else []

def visitLoop (ev : Evaluator) (rounds : Nat) (counter : String) (first last : Expr)
    (body : List Stmt) (st : State) : List Visit :=
  .expr first st :: (loopBound ev first "start" st).onward fun x st =>
    .expr last st :: (loopBound ev last "end" st).onward fun y st =>
      (setCounter counter x st).onward fun _ st =>
        (ev.visitRounds counter y body rounds x st).map (Visit.inside (.loop counter))

def visitJoined (ev : Evaluator) : List Stmt → State → List Visit
  | [], _ => []
  | s :: ss, st => .stmt s st ::
    match ev.stmt s st with
    | .ok _ st | .failed _ st => ev.visitJoined ss st
    | .broken _ => []

def visitText (ev : Evaluator) (source : String) (st : State) : List Visit :=
  match parse source with
  | .ok stmts => ev.visitBlock stmts st
  | .error _ => [⟨.text source, st, []⟩]

def visitConnect (host : Host) (ev : Evaluator) (name : String) (st : State) : List Visit :=
  let path := host.resolve st.includes name
  if !name.endsWith ".kq" || st.includes.contains path then []
  else (host.readFile name path st).onward fun source st =>
    (ev.visitText source { st with includes := path :: st.includes }).map
      (Visit.inside (.file path))

/-- The nodes that a statement runs, in the order in which it does so. -/
def visitForm (host : Host) (ev : Evaluator) (rounds : Nat) : StmtForm → State → List Visit
  | .declare _ e _, st | .print _ e, st | .return (some e), st | .value e, st => [.expr e st]
  | .assign name e, st =>
    match st.env.checkAssignable name with
    | .ok () => [.expr e st]
    | .error _ => []
  | .branch condition thenBlock elseBlock, st =>
    ev.visitBranch condition thenBlock (elseBlock.getD []) st
  | .loop counter first last body, st => ev.visitLoop rounds counter first last body st
  | .while condition body, st => ev.visitWhile condition body rounds st
  | .async body, st => ev.visitJoined body st
  | .connect name, st => ev.visitConnect host name st
  | _, _ => []

/-- What a node does. -/
def run (ev : Evaluator) : Node → Exec Unit
  | .expr e => do let _ ← ev.expr e
  | .stmt s => do let _ ← ev.stmt s
  | .text source => fun st =>
    match parse source with
    | .ok _ => .ok () st
    | .error e => .failed (Fault.ofSyntaxError e) st

end Evaluator

end BraceScript
