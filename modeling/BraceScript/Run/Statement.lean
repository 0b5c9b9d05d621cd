-- What statements do. As with expressions, what the parts of a statement do
-- is a parameter; loops are also given a bound on their rounds.
import BraceScript.Run.Expression
import BraceScript.Tree.Parse

namespace BraceScript

/-! ## Variables and branches -/

/-- A new variable with the value of an expression. -/
def declare (ev : Evaluator) (name : String) (value : Expr) (immutable : Bool) : Exec Flow := do
  let v ← ev.expr value
  Exec.bindings (·.declare name v immutable) (Fault.Cause.ofRefusal name)
  return .normal

/-- Another value for a variable. Whether there is such a variable is
settled before the value is. -/
def assign (ev : Evaluator) (name : String) (value : Expr) : Exec Flow := do
  Exec.bindings (fun env => (env.checkAssignable name).map fun _ => env)
    (Fault.Cause.ofRefusal name)
  let v ← ev.expr value
  Exec.bindings (·.assign name v) (Fault.Cause.ofRefusal name)
  return .normal

def branch (ev : Evaluator) (condition : Expr) (thenBlock : List Stmt)
    (elseBlock : Option (List Stmt)) : Exec Flow := do
  if ← ev.holds condition then ev.block thenBlock
  else ev.block (elseBlock.getD [])

/-! ## Loops -/

/-- Runs a block again and again while a condition holds. -/
def whileLoop (ev : Evaluator) (condition : Expr) (body : List Stmt) : Nat → Exec Flow
  | 0 => Exec.stop .outOfFuel
  | rounds + 1 => do
    if ← ev.holds condition then
      match ← ev.block body with
      | .normal => whileLoop ev condition body rounds
      | .returned v => return .returned v
    else return .normal

/-- Binds the counter of a loop as a global. -/
def setCounter (counter : String) (x : Float) : Exec Unit :=
  Exec.bindings (·.setGlobal counter (.number x)) (Fault.Cause.ofRefusal counter)

/-- The rounds of a counting loop from `x` on. What the body does to the
counter does not matter: it is bound anew before each round. -/
def countRounds (ev : Evaluator) (counter : String) (last : Float) (body : List Stmt) :
    Nat → Float → Exec Flow
  | 0, _ => Exec.stop .outOfFuel
  | rounds + 1, x => do
    if x ≤ last then
      setCounter counter x
      match ← ev.block body with
      | .normal => countRounds ev counter last body rounds (x + 1.0)
      | .returned v => return .returned v
    else return .normal

/-- The number that an end of a counting loop has to be. -/
def loopBound (ev : Evaluator) (e : Expr) (which : String) : Exec Float := do
  match ← ev.expr e with
  | .number x => return x
  | v => Exec.failAt e.span (.wrongKind ("`loop` " ++ which) "a number" v.kind)

/-- A counting loop. Its counter is a global while it runs and unbound
afterwards; a global that stays for good is not touched, and no round runs. -/
def countLoop (ev : Evaluator) (rounds : Nat) (counter : String) (first last : Expr)
    (body : List Stmt) : Exec Flow := do
  let x ← loopBound ev first "start"
  let y ← loopBound ev last "end"
  setCounter counter x
  Exec.afterwards (countRounds ev counter y body rounds x)
    fun st => { st with env := st.env.unsetGlobal counter }

/-! ## Blocks that run to their end -/

/-- Runs every statement, whatever the ones before came to. The first fault
is the outcome, else the first `return`. -/
def joinAll (ev : Evaluator) : Option Fault → Option Value → List Stmt → Exec Flow
  | fault, value, [] => fun st =>
    match fault, value with
    | some f, _ => .failed f st
    | none, some v => .ok (.returned v) st
    | none, none => .ok .normal st
  | fault, value, s :: ss => fun st =>
    match ev.stmt s st with
    | .ok .normal st => joinAll ev fault value ss st
    | .ok (.returned v) st => joinAll ev fault (value.or (some v)) ss st
    | .failed f st => joinAll ev (fault.or (some f)) value ss st
    | .broken reason => .broken reason

/-! ## Connected files -/

/-- Runs the statements of a source text. -/
def runText (ev : Evaluator) (source : String) : Exec Unit :=
  match parse source with
  | .error e => fun st => .failed (Fault.ofSyntaxError e) st
  | .ok stmts => do
    let _ ← ev.block stmts

/-- Runs another file in its place. Faults that arise in it have it as their
origin and keep their spans. -/
def connect (host : Host) (ev : Evaluator) (span : Span) (name : String) : Exec Flow := do
  if !name.endsWith ".kq" then Exec.failAt span (.notConnectable name)
  else
    let includes := (← Exec.get).includes
    let path := host.resolve includes name
    if includes.contains path then Exec.failAt span (.circular name)
    else
      let source ← Exec.within span (host.readFile name path)
      fun st =>
        match Exec.withFile path (runText ev source) st with
        | .ok () st => .ok .normal st
        | .failed fault st => .failed (fault.connecting path.text name) st
        | .broken reason => .broken reason

/-! ## All forms -/

/-- What a statement does, given what its parts do. -/
def perform (host : Host) (ev : Evaluator) (rounds : Nat) (span : Span) :
    StmtForm → Exec Flow
  | .declare name value immutable => declare ev name value immutable
  | .assign name value => assign ev name value
  | .print channel value => do
    let v ← ev.expr value
    Exec.print channel v
    return .normal
  | .branch condition thenBlock elseBlock => branch ev condition thenBlock elseBlock
  | .loop counter first last body => countLoop ev rounds counter first last body
  | .while condition body => whileLoop ev condition body rounds
  | .function name params body => do
    Exec.bindings (·.defineFunction ⟨name, params, body⟩) fun _ => .reserved .function
    return .normal
  | .return none => return .returned .void
  | .return (some e) => do
    let v ← ev.expr e
    return .returned v
  | .deleteVariable name => do
    Exec.bindings (·.deleteVariable name) (Fault.Cause.ofRefusal name)
    return .normal
  | .deleteFunction name => do
    Exec.bindings (·.deleteFunction name) fun _ => .undefinedFunction name
    return .normal
  | .connect path => connect host ev span path
  | .async body => joinAll ev none none body
  | .value e => do
    let _ ← ev.expr e
    return .normal

end BraceScript
