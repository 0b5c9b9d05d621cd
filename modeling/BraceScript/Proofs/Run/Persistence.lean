-- What a run does not depend on. If it comes to an end it does the same with
-- more fuel. And it does the same whatever files are in progress, unless a
-- node is run that uses files. Both are one law, which goes through all that
-- a node can do: if nothing changes for the nodes that it runs, nothing
-- changes for itself.
import BraceScript.Proofs.Run.Joined

namespace BraceScript

variable {α β : Type}

/-! ## The nodes that are run -/

def ExprForm.usesFiles : ExprForm → Bool
  | .read _ => true
  | _ => false

def StmtForm.usesFiles : StmtForm → Bool
  | .connect _ => true
  | _ => false

/-- What the node itself does depends on files, or on which of them are in progress. -/
def Node.usesFiles : Node → Bool
  | .expr e => e.form.usesFiles
  | .stmt s => s.form.usesFiles
  | .text _ => false

/-- A visit that is made in the course of another one. -/
def Visit.within (v : Visit) (settings : List Setting) : Visit :=
  { v with settings := v.settings ++ settings }

/-- All nodes that are run when a node is run, itself included, and what each is inside of. -/
def executed (host : Host) : Nat → Node → State → List Visit
  | 0, n, st => [⟨n, st, []⟩]
  | fuel + 1, n, st => ⟨n, st, []⟩ ::
    (visits host (fuel + 1) n st).flatMap fun v =>
      (executed host fuel v.node v.state).map fun w => w.within v.settings

/-- All nodes that are run when a source is run. -/
def Source.executed (host : Host) (fuel : Nat) (source : Source) (st : State) : List Visit :=
  (source.visits host fuel st).flatMap fun v =>
    (BraceScript.executed host fuel v.node v.state).map fun w => w.within v.settings

theorem mem_executed_self (host : Host) (fuel : Nat) (n : Node) (st : State) :
    ⟨n, st, []⟩ ∈ executed host fuel n st := by
  cases fuel <;> simp [executed]

/-! ## Outcomes that persist -/

/-- What the end of a connected file is for the file that connects it. -/
def Outcome.connected (path : Path) (name : String) : Outcome Unit → Outcome Flow
  | .ok () st => .ok .normal st
  | .failed fault st => .failed (fault.connecting path.text name) st
  | .broken reason => .broken reason

/-- The state with other files in progress. -/
def State.mapIncludes (g : List Path → List Path) (st : State) : State :=
  { st with includes := g st.includes }

@[simp] theorem State.env_mapIncludes (g : List Path → List Path) (st : State) :
    (st.mapIncludes g).env = st.env := rfl

@[simp] theorem State.heap_mapIncludes (g : List Path → List Path) (st : State) :
    (st.mapIncludes g).heap = st.heap := rfl

/-- The other outcome is the same but for the files in progress, unless this one has run out of
fuel and there is more. -/
def Outcome.Persists (extra : Nat) (g : List Path → List Path) (o o' : Outcome α) : Prop :=
  o' = o.change (State.mapIncludes g) ∨ extra ≠ 0 ∧ o = .broken .outOfFuel

/-- The files in progress make no difference to the step. -/
def Exec.Blind (g : List Path → List Path) (x : Exec α) : Prop :=
  ∀ st : State, x (st.mapIncludes g) = (x st).change (State.mapIncludes g)

variable {extra : Nat} {g : List Path → List Path} {st : State}

namespace Outcome.Persists

theorem pure (v : α) : ((Pure.pure v : Exec α) st).Persists extra g
    ((Pure.pure v : Exec α) (st.mapIncludes g)) := .inl rfl

theorem same (o : Outcome α) : o.Persists extra id o := by
  refine .inl ?_
  cases o <;> rfl

/-- Out of fuel, and so it is on the other side unless there is more. -/
theorem spent {o' : Outcome α} (h : extra = 0 → o' = .broken .outOfFuel) :
    (Outcome.broken .outOfFuel).Persists extra g o' := by
  by_cases more : extra = 0
  · exact .inl (h more)
  · exact .inr ⟨more, rfl⟩

theorem andThen {o o' : Outcome α} {f f' : α → Exec β} (ho : o.Persists extra g o')
    (hf : ∀ v mid, o = .ok v mid → (f v mid).Persists extra g (f' v (mid.mapIncludes g))) :
    (o.andThen f).Persists extra g (o'.andThen f') := by
  rcases ho with rfl | ⟨more, rfl⟩
  · cases o with
    | ok v mid => exact hf v mid rfl
    | failed | broken => exact .inl rfl
  · exact .inr ⟨more, rfl⟩

theorem bind {x x' : Exec α} {f f' : α → Exec β}
    (hx : (x st).Persists extra g (x' (st.mapIncludes g)))
    (hf : ∀ v mid, x st = .ok v mid → (f v mid).Persists extra g (f' v (mid.mapIncludes g))) :
    ((x >>= f) st).Persists extra g ((x' >>= f') (st.mapIncludes g)) :=
  hx.andThen hf

theorem change {o o' : Outcome α} {k : State → State} (ho : o.Persists extra g o')
    (hk : ∀ st, k (st.mapIncludes g) = (k st).mapIncludes g) :
    (o.change k).Persists extra g (o'.change k) := by
  rcases ho with rfl | ⟨more, rfl⟩
  · refine .inl ?_
    cases o <;> simp only [Outcome.change, hk]
  · exact .inr ⟨more, rfl⟩

theorem refault {o o' : Outcome α} (k : Fault → Fault) (ho : o.Persists extra g o') :
    (o.refault k).Persists extra g (o'.refault k) := by
  rcases ho with rfl | ⟨more, rfl⟩
  · refine .inl ?_
    cases o <;> rfl
  · exact .inr ⟨more, rfl⟩

theorem connected {o o' : Outcome Unit} (path : Path) (name : String)
    (ho : o.Persists extra g o') : (o.connected path name).Persists extra g
      (o'.connected path name) := by
  rcases ho with rfl | ⟨more, rfl⟩
  · refine .inl ?_
    cases o <;> rfl
  · exact .inr ⟨more, rfl⟩

end Outcome.Persists

theorem Exec.Blind.persists {x : Exec α} (hx : x.Blind g) :
    (x st).Persists extra g (x (st.mapIncludes g)) := .inl (hx st)

/-! ## Steps that are blind -/

theorem blind_ofExcept (r : Except Fault.Cause α) : (Exec.ofExcept r).Blind g := by
  intro st
  cases r <;> rfl

theorem blind_bindings (change : Environment → Except Refusal Environment)
    (cause : Refusal → Fault.Cause) : (Exec.bindings change cause).Blind g := by
  intro st
  unfold Exec.bindings
  rw [State.env_mapIncludes]
  cases change st.env <;> rfl

theorem blind_namedArray (name : String) : (namedArray name).Blind g := by
  intro st
  unfold namedArray
  rw [Exec.get_bind, Exec.get_bind, State.env_mapIncludes]
  cases st.env.lookup name with
  | none => rfl
  | some v => cases v <;> rfl

theorem blind_elementAt (array : String) (handle : Nat) (index : Value) :
    (elementAt array handle index).Blind g := by
  intro st
  unfold elementAt
  rw [Exec.get_bind, Exec.get_bind, State.heap_mapIncludes]
  cases checkIndex array (st.heap.lengthOf handle) index <;> rfl

theorem blind_removeElement (array : String) (handle : Nat) (key : Value) :
    (removeElement array handle key).Blind g := by
  intro st
  unfold removeElement
  rw [Exec.get_bind, Exec.get_bind, State.heap_mapIncludes]
  cases keyPlace st.heap array handle key <;> rfl

theorem blind_parseJson (v : Value) : (parseJson v).Blind g := by
  intro st
  cases v with
  | text text =>
    unfold parseJson
    dsimp only
    rw [State.heap_mapIncludes]
    cases st.heap.ofJson text <;> rfl
  | _ => rfl

theorem blind_textual (function : TextFunction) (v : Value) : (textual function v).Blind g := by
  intro st
  unfold textual
  rw [State.heap_mapIncludes]
  cases function.apply st.heap v <;> rfl

/-! ## Expressions -/

variable {host : Host} {ev ev' : Evaluator}

/-- Nothing changes for a node. -/
def Visit.Persists (extra : Nat) (g : List Path → List Path) (ev ev' : Evaluator) (v : Visit) :
    Prop :=
  match v.node with
  | .expr e => (ev.expr e v.state).Persists extra g (ev'.expr e (v.state.mapIncludes g))
  | .stmt s => (ev.stmt s v.state).Persists extra g (ev'.stmt s (v.state.mapIncludes g))
  | .text _ => True

/-- What a visit is inside of makes no difference. -/
theorem persists_inside {vs : List Visit} {s : Setting}
    (h : ∀ v ∈ vs.map (Visit.inside s), v.Persists extra g ev ev') :
    ∀ v ∈ vs, v.Persists extra g ev ev' :=
  fun v hv => h (v.inside s) (List.mem_map_of_mem hv)

theorem persists_expr {e : Expr} {vs : List Visit}
    (h : ∀ v ∈ .expr e st :: vs, v.Persists extra g ev ev') :
    (ev.expr e st).Persists extra g (ev'.expr e (st.mapIncludes g)) :=
  (List.forall_mem_cons.1 h).1

theorem persists_all {es : List Expr} (h : ∀ v ∈ ev.visitAll es st, v.Persists extra g ev ev') :
    (ev.all es st).Persists extra g (ev'.all es (st.mapIncludes g)) := by
  induction es generalizing st with
  | nil => exact .pure _
  | cons e es ih =>
    obtain ⟨first, others⟩ := List.forall_mem_cons.1 h
    refine .bind first fun v mid hv => ?_
    rw [hv] at others
    exact (ih others).bind fun _ _ _ => .pure _

theorem persists_block {ss : List Stmt}
    (h : ∀ v ∈ ev.visitBlock ss st, v.Persists extra g ev ev') :
    (ev.block ss st).Persists extra g (ev'.block ss (st.mapIncludes g)) := by
  induction ss generalizing st with
  | nil => exact .pure _
  | cons s ss ih =>
    obtain ⟨first, others⟩ := List.forall_mem_cons.1 h
    refine .bind first fun flow mid hflow => ?_
    rw [hflow] at others
    cases flow with
    | normal => exact ih others
    | returned v => exact .pure _

theorem persists_holds {e : Expr} {vs : List Visit}
    (h : ∀ v ∈ .expr e st :: vs, v.Persists extra g ev ev') :
    (ev.holds e st).Persists extra g (ev'.holds e (st.mapIncludes g)) :=
  (persists_expr h).bind fun _ _ _ => .inl rfl

theorem persists_call {name : String} {es : List Expr}
    (h : ∀ v ∈ ev.visitCall name es st, v.Persists extra g ev ev') :
    (call ev name es st).Persists extra g (call ev' name es (st.mapIncludes g)) := by
  unfold call
  unfold Evaluator.visitCall at h
  rw [Exec.get_bind, Exec.get_bind,
    show (st.mapIncludes g).env.function? name = st.env.function? name from rfl]
  cases hf : st.env.function? name with
  | none => exact .inl rfl
  | some f =>
    rw [hf] at h
    dsimp only at h ⊢
    split
    · exact .inl rfl
    next fits =>
      rw [if_neg fits] at h
      obtain ⟨args, body⟩ := List.forall_mem_append.1 h
      refine (persists_all args).bind fun values mid hvalues => ?_
      rw [hvalues] at body
      cases hframe : callFrame f.params values Scope.empty with
      | error cause => exact .inl rfl
      | ok frame =>
        simp only [Outcome.onward, hframe] at body
        have inner : (Exec.withFrame frame (ev.block f.body) mid).Persists extra g
            (Exec.withFrame frame (ev'.block f.body) (mid.mapIncludes g)) :=
          (persists_block (persists_inside body)).change fun _ => rfl
        exact inner.bind fun flow _ _ => by cases flow <;> exact .pure _

theorem persists_binary {op : BinaryOperator} {l r : Expr}
    (h : ∀ v ∈ ev.visitBinary op l r st, v.Persists extra g ev ev') :
    (binary ev op l r st).Persists extra g (binary ev' op l r (st.mapIncludes g)) := by
  have both (h : ∀ v ∈ ev.visitAll [l, r] st, v.Persists extra g ev ev') :
      ((do
        let a ← ev.expr l
        let b ← ev.expr r
        Exec.ofExcept (op.apply (← Exec.get).heap a b) : Exec Value) st).Persists extra g
      ((do
        let a ← ev'.expr l
        let b ← ev'.expr r
        Exec.ofExcept (op.apply (← Exec.get).heap a b) : Exec Value) (st.mapIncludes g)) := by
    refine (persists_expr h).bind fun a mid ha => ?_
    have second := (List.forall_mem_cons.1 h).2
    rw [ha] at second
    exact (persists_expr second).bind fun b _ _ => (blind_ofExcept _).persists
  cases op with
  | and =>
    refine (persists_holds h).bind fun b mid hb => ?_
    have second := (List.forall_mem_cons.1 h).2
    rw [hb] at second
    cases b with
    | true => exact (persists_holds second).bind fun _ _ _ => .pure _
    | false => exact .pure _
  | or =>
    refine (persists_holds h).bind fun b mid hb => ?_
    have second := (List.forall_mem_cons.1 h).2
    rw [hb] at second
    cases b with
    | true => exact .pure _
    | false => exact (persists_holds second).bind fun _ _ _ => .pure _
  | _ => exact both h

/-- Reading a file. -/
theorem persists_readText {path : Expr}
    (h : ∀ v ∈ [Visit.expr path st], v.Persists extra id ev ev') :
    (readText host ev path st).Persists extra id (readText host ev' path st) :=
  (persists_expr h).bind fun _ _ _ => .same _

/-- A node below that is run with the name of an array before it. -/
theorem persists_named {name : String} {e : Expr} {f : Nat → Value → Exec Value}
    (h : ∀ v ∈ (namedArray name st).onward fun _ st => [.expr e st], v.Persists extra g ev ev')
    (hf : ∀ handle v, (f handle v).Blind g) :
    ((do
      let handle ← namedArray name
      let v ← ev.expr e
      f handle v : Exec Value) st).Persists extra g
    ((do
      let handle ← namedArray name
      let v ← ev'.expr e
      f handle v : Exec Value) (st.mapIncludes g)) := by
  refine (blind_namedArray name).persists.bind fun handle mid hmid => ?_
  rw [hmid] at h
  exact (persists_expr h).bind fun v _ _ => (hf handle v).persists

/-- Whatever an expression is made of. -/
theorem persists_valueOf (form : ExprForm) (files : form.usesFiles = true → g = id)
    (h : ∀ v ∈ ev.visitValue form st, v.Persists extra g ev ev') :
    (valueOf host ev form st).Persists extra g (valueOf host ev' form (st.mapIncludes g)) := by
  cases form with
  | number | text | boolean | void => exact .pure _
  | name name =>
    refine .inl ?_
    simp only [valueOf, Exec.get_bind, State.env_mapIncludes]
    cases st.env.lookup name <;> rfl
  | array items => exact (persists_all h).bind fun _ _ _ => .inl rfl
  | binary op l r => exact persists_binary h
  | unary op e => exact (persists_expr h).bind fun _ _ _ => (blind_ofExcept _).persists
  | call name es => exact persists_call h
  | index array e => exact persists_named h fun _ _ => blind_elementAt _ _ _
  | read path =>
    obtain rfl := files rfl
    exact persists_readText h
  | append array e => exact persists_named h fun _ _ _ => rfl
  | remove array e => exact persists_named h fun _ _ => blind_removeElement _ _ _
  | size array => exact (blind_namedArray array).persists.bind fun _ _ _ => .inl rfl
  | toJson e =>
    refine (persists_expr h).bind fun v mid _ => .inl ?_
    rw [Exec.get_bind, Exec.get_bind, State.heap_mapIncludes]
    cases mid.heap.toJson v <;> rfl
  | parseJson e => exact (persists_expr h).bind fun _ _ _ => (blind_parseJson _).persists
  | math f e => exact (persists_expr h).bind fun _ _ _ => (blind_ofExcept _).persists
  | textual f e => exact (persists_expr h).bind fun _ _ _ => (blind_textual _ _).persists

/-! ## Statements -/

theorem persists_assign {name : String} {e : Expr}
    (h : ∀ v ∈ (match st.env.checkAssignable name with
      | .ok () => [Visit.expr e st]
      | .error _ => []), v.Persists extra g ev ev') :
    (assign ev name e st).Persists extra g (assign ev' name e (st.mapIncludes g)) := by
  refine (blind_bindings _ _).persists.bind fun _ mid hmid => ?_
  cases hc : st.env.checkAssignable name with
  | error r => simp [Exec.bindings, hc, Except.map] at hmid
  | ok _ =>
    simp only [Exec.bindings, hc, Except.map, Outcome.ok.injEq, true_and] at hmid
    subst hmid
    rw [hc] at h
    refine (persists_expr h).bind fun v mid _ => ?_
    exact (blind_bindings _ _).persists.bind fun _ _ _ => .pure _

theorem persists_branch {e : Expr} {ss other : List Stmt}
    (h : ∀ v ∈ ev.visitBranch e ss other st, v.Persists extra g ev ev') :
    ((do if ← ev.holds e then ev.block ss else ev.block other : Exec Flow) st).Persists extra g
      ((do if ← ev'.holds e then ev'.block ss else ev'.block other : Exec Flow)
        (st.mapIncludes g)) := by
  refine (persists_holds h).bind fun b mid hb => ?_
  have second := (List.forall_mem_cons.1 h).2
  rw [hb] at second
  cases b with
  | true => exact persists_block second
  | false => exact persists_block second

theorem persists_whileLoop {e : Expr} {ss : List Stmt} {rounds : Nat}
    (h : ∀ v ∈ ev.visitWhile e ss rounds st, v.Persists extra g ev ev') :
    (whileLoop ev e ss rounds st).Persists extra g
      (whileLoop ev' e ss (rounds + extra) (st.mapIncludes g)) := by
  induction rounds generalizing st with
  | zero =>
    refine .spent fun none => ?_
    rw [none]
    rfl
  | succ rounds ih =>
    rw [Nat.add_right_comm]
    refine (persists_holds h).bind fun b mid hb => ?_
    have inside := (List.forall_mem_cons.1 h).2
    rw [hb] at inside
    cases b with
    | false => exact .pure _
    | true =>
      obtain ⟨body, others⟩ := List.forall_mem_append.1 inside
      refine (persists_block body).bind fun flow mid' hflow => ?_
      rw [hflow] at others
      cases flow with
      | normal => exact ih others
      | returned v => exact .pure _

theorem persists_countRounds {counter : String} {last : Float} {ss : List Stmt} {rounds : Nat}
    {x : Float} (h : ∀ v ∈ ev.visitRounds counter last ss rounds x st, v.Persists extra g ev ev') :
    (countRounds ev counter last ss rounds x st).Persists extra g
      (countRounds ev' counter last ss (rounds + extra) x (st.mapIncludes g)) := by
  induction rounds generalizing st x with
  | zero =>
    refine .spent fun none => ?_
    rw [none]
    rfl
  | succ rounds ih =>
    rw [Nat.add_right_comm]
    unfold Evaluator.visitRounds at h
    unfold countRounds
    split
    · next more =>
      rw [if_pos more] at h
      refine (blind_bindings _ _).persists.bind fun _ mid hmid => ?_
      rw [setCounter, hmid] at h
      obtain ⟨body, others⟩ := List.forall_mem_append.1 h
      refine (persists_block body).bind fun flow mid' hflow => ?_
      rw [hflow] at others
      cases flow with
      | normal => exact ih others
      | returned v => exact .pure _
    · exact .pure _

theorem persists_loopBound {e : Expr} {which : String} {vs : List Visit}
    (h : ∀ v ∈ .expr e st :: vs, v.Persists extra g ev ev') :
    (loopBound ev e which st).Persists extra g (loopBound ev' e which (st.mapIncludes g)) :=
  (persists_expr h).bind fun v _ _ => by cases v <;> exact .inl rfl

theorem persists_countLoop {counter : String} {a b : Expr} {ss : List Stmt} {rounds : Nat}
    (h : ∀ v ∈ ev.visitLoop rounds counter a b ss st, v.Persists extra g ev ev') :
    (countLoop ev rounds counter a b ss st).Persists extra g
      (countLoop ev' (rounds + extra) counter a b ss (st.mapIncludes g)) := by
  refine (persists_loopBound h).bind fun x mid hx => ?_
  have second := (List.forall_mem_cons.1 h).2
  rw [hx] at second
  refine (persists_loopBound second).bind fun y mid' hy => ?_
  have third := (List.forall_mem_cons.1 second).2
  rw [hy] at third
  refine (blind_bindings _ _).persists.bind fun _ mid'' hset => ?_
  simp only [Outcome.onward, setCounter, hset] at third
  exact (persists_countRounds (persists_inside third)).change fun _ => rfl

theorem persists_joinAll {ss : List Stmt} {fault : Option Fault} {value : Option Value}
    (h : ∀ v ∈ ev.visitJoined ss st, v.Persists extra g ev ev') :
    (joinAll ev fault value ss st).Persists extra g
      (joinAll ev' fault value ss (st.mapIncludes g)) := by
  induction ss generalizing st fault value with
  | nil => cases fault <;> cases value <;> exact .inl rfl
  | cons s ss ih =>
    obtain ⟨first, others⟩ := List.forall_mem_cons.1 h
    have first : (ev.stmt s st).Persists extra g (ev'.stmt s (st.mapIncludes g)) := first
    unfold joinAll
    rcases first with same | ⟨more, spent⟩
    · rw [same]
      cases hs : ev.stmt s st with
      | ok flow mid =>
        rw [hs] at others
        cases flow <;> exact ih others
      | failed f mid =>
        rw [hs] at others
        exact ih others
      | broken reason => exact .inl rfl
    · rw [spent]
      exact .inr ⟨more, rfl⟩

theorem persists_runText {source : String}
    (h : ∀ v ∈ ev.visitText source st, v.Persists extra g ev ev') :
    (runText ev source st).Persists extra g (runText ev' source (st.mapIncludes g)) := by
  unfold Evaluator.visitText at h
  unfold runText
  cases program : parse source with
  | error e => exact .inl rfl
  | ok ss =>
    rw [program] at h
    exact (persists_block h).bind fun _ _ _ => .pure _

/-- Connecting a file. -/
theorem persists_connect {span : Span} {name : String}
    (h : ∀ v ∈ ev.visitConnect host name st, v.Persists extra id ev ev') :
    (connect host ev span name st).Persists extra id (connect host ev' span name st) := by
  unfold Evaluator.visitConnect at h
  unfold connect
  by_cases kq : name.endsWith ".kq"
  · simp only [kq, Bool.not_true, Bool.false_eq_true, if_false, Bool.false_or] at h ⊢
    by_cases old : st.includes.contains (host.resolve st.includes name)
    · rw [Exec.get_bind, Exec.get_bind, if_pos old, if_pos old]
      exact .same _
    · rw [if_neg old] at h
      rw [Exec.get_bind, Exec.get_bind, if_neg old, if_neg old]
      refine .bind (.same _) fun source mid hmid => ?_
      have read : host.readFile name (host.resolve st.includes name) st = .ok source mid := by
        rw [Exec.within_apply] at hmid
        cases hr : host.readFile name (host.resolve st.includes name) st <;> rw [hr] at hmid <;>
          cases hmid
        rfl
      rw [read] at h
      have inner : (Exec.withFile (host.resolve st.includes name) (runText ev source)
          mid).Persists extra id (Exec.withFile (host.resolve st.includes name)
            (runText ev' source) mid) :=
        (persists_runText (persists_inside h)).change fun _ => rfl
      exact inner.connected _ name
  · simp only [kq]
    exact .same _

/-- Whatever a statement is made of. -/
theorem persists_perform {rounds : Nat} {span : Span} (form : StmtForm)
    (files : form.usesFiles = true → g = id)
    (h : ∀ v ∈ ev.visitForm host rounds form st, v.Persists extra g ev ev') :
    (perform host ev rounds span form st).Persists extra g
      (perform host ev' (rounds + extra) span form (st.mapIncludes g)) := by
  cases form with
  | declare name e immutable =>
    refine (persists_expr h).bind fun v mid _ => ?_
    exact (blind_bindings _ _).persists.bind fun _ _ _ => .pure _
  | assign name e => exact persists_assign h
  | print channel e => exact (persists_expr h).bind fun _ _ _ => .inl rfl
  | branch e ss other => exact persists_branch h
  | loop counter a b ss => exact persists_countLoop h
  | «while» e ss => exact persists_whileLoop h
  | function name params ss => exact (blind_bindings _ _).persists.bind fun _ _ _ => .pure _
  | «return» e =>
    cases e with
    | none => exact .pure _
    | some e => exact (persists_expr h).bind fun _ _ _ => .pure _
  | deleteVariable name => exact (blind_bindings _ _).persists.bind fun _ _ _ => .pure _
  | deleteFunction name => exact (blind_bindings _ _).persists.bind fun _ _ _ => .pure _
  | connect name =>
    obtain rfl := files rfl
    exact persists_connect h
  | async ss => exact persists_joinAll h
  | value e => exact (persists_expr h).bind fun _ _ _ => .pure _

/-! ## Programs -/

/-- With more fuel, and with other files in progress if no node that is run uses files, a node
comes to the same end, if it comes to one. -/
theorem persists_run (host : Host) (fuel extra : Nat) (g : List Path → List Path) {n : Node}
    {st : State}
    (files : ∀ v ∈ executed host fuel n st, v.node.usesFiles = true → g = id) :
    (Visit.mk n st []).Persists extra g (evaluator host fuel) (evaluator host (fuel + extra)) := by
  induction fuel generalizing n st with
  | zero =>
    have spent (h : extra = 0) : evaluator host (0 + extra) = evaluator host 0 := by rw [h]
    cases n with
    | expr e => exact .spent fun none => by rw [spent none]; rfl
    | stmt s => exact .spent fun none => by rw [spent none]; rfl
    | text source => trivial
  | succ fuel ih =>
    have own := files _ (mem_executed_self host (fuel + 1) n st)
    have parts : ∀ v ∈ visits host (fuel + 1) n st,
        v.Persists extra g (evaluator host fuel) (evaluator host (fuel + extra)) := by
      intro v hv
      refine ih fun w hw => files (w.within v.settings) ?_
      exact List.mem_cons_of_mem _ (List.mem_flatMap.2 ⟨v, hv, List.mem_map_of_mem hw⟩)
    rw [Nat.add_right_comm]
    cases n with
    | expr e =>
      obtain ⟨span, form⟩ := e
      have value : (valueOf host (evaluator host fuel) form st).Persists extra g
          (valueOf host (evaluator host (fuel + extra)) form (st.mapIncludes g)) :=
        persists_valueOf form own parts
      exact value.refault (·.within span)
    | stmt s =>
      obtain ⟨span, form⟩ := s
      have done : (perform host (evaluator host fuel) fuel span form st).Persists extra g
          (perform host (evaluator host (fuel + extra)) (fuel + extra) span form
            (st.mapIncludes g)) :=
        persists_perform form own parts
      exact done.refault (·.within span)
    | text source => trivial

/-- The same for rows of statements. -/
theorem persists_rows (host : Host) (fuel extra : Nat) (g : List Path → List Path)
    {ss : List Stmt} {st : State}
    (files : ∀ v ∈ (evaluator host fuel).visitBlock ss st,
      ∀ w ∈ executed host fuel v.node v.state, w.node.usesFiles = true → g = id) :
    ((evaluator host fuel).block ss st).Persists extra g
      ((evaluator host (fuel + extra)).block ss (st.mapIncludes g)) :=
  persists_block fun v hv => persists_run host fuel extra g (files v hv)

/-- Rows that come to an end do so with more fuel. -/
theorem block_of_more_fuel (host : Host) (fuel extra : Nat) (ss : List Stmt) (st : State) :
    (evaluator host (fuel + extra)).block ss st = (evaluator host fuel).block ss st ∨
      (evaluator host fuel).block ss st = .broken .outOfFuel := by
  have both : ((evaluator host fuel).block ss st).Persists extra id
      ((evaluator host (fuel + extra)).block ss st) :=
    persists_rows host fuel extra id fun _ _ _ _ _ => rfl
  rcases both with same | ⟨-, spent⟩
  · refine .inl (same.trans ?_)
    cases (evaluator host fuel).block ss st <;> rfl
  · exact .inr spent

/-- A source that comes to an end does so with more fuel. -/
theorem a_run_that_ends_does_so_with_more_fuel (host : Host) {fuel : Nat} (extra : Nat)
    (source : Source) {st : State} (ends : source.run host fuel st ≠ .broken .outOfFuel) :
    source.run host (fuel + extra) st = source.run host fuel st := by
  cases program : parse source.text with
  | error e => simp only [Source.run, runSource, program]
  | ok ss =>
    have whole (fuel : Nat) : source.run host fuel st =
        ((evaluator host fuel).block ss (source.enter host st)).void.change source.leave :=
      source.run_program program host fuel st
    rw [whole] at ends ⊢
    rw [whole]
    rcases block_of_more_fuel host fuel extra ss (source.enter host st) with same | spent
    · rw [same]
    · exact absurd (by rw [spent]; rfl) ends

end BraceScript
