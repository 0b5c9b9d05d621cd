-- An array value is only a handle, and a handle that belongs to no array
-- would be an array without a place to keep its elements. No run gets at such
-- a handle: the arrays that are there stay there, and what is bound, held in
-- an array or come to by a step is one of them or no array at all.
import BraceScript.Proofs.Environment.Changes
import BraceScript.Proofs.Run.Outcomes
import BraceScript.Proofs.Value.Handles
import BraceScript.Run.Program

namespace BraceScript

variable {α β : Type}

/-! ## Intact states -/

/-- Every handle that the state has belongs to an array. -/
structure State.Intact (st : State) : Prop where
  bindings : ∀ level name b, st.env.bindingAt level name = some b → st.heap.Holds b.value
  heap : st.heap.Closed

/-- A state that the other one may become. -/
structure State.Onward (st st' : State) : Prop where
  size : st.heap.size ≤ st'.heap.size
  intact : st'.Intact

namespace State

variable {st st' st'' : State}

theorem Intact.onward (intact : st.Intact) : st.Onward st := ⟨le_rfl, intact⟩

theorem Onward.trans (first : st.Onward st') (second : st'.Onward st'') : st.Onward st'' :=
  ⟨first.size.trans second.size, second.intact⟩

theorem intact_initial : State.initial.Intact where
  bindings := by rintro (_ | depth) name b ⟨⟩
  heap := by
    intro handle v mem
    simp [initial, Heap.empty, Heap.items] at mem

theorem Intact.setHeap {heap : Heap} (intact : st.Intact) (grows : st.heap.Grows heap) :
    st.Onward { st with heap } where
  size := grows.size
  intact :=
    ⟨fun level name b found => (intact.bindings level name b found).mono grows.size, grows.closed⟩

/-- Other bindings, each with a value that the heap holds. -/
theorem Intact.setEnv {env : Environment} (intact : st.Intact)
    (held : ∀ level name b, env.bindingAt level name = some b → st.heap.Holds b.value) :
    st.Onward { st with env } :=
  ⟨le_rfl, held, intact.heap⟩

/-- The value of a variable is one that the heap holds. -/
theorem Intact.holds_of_lookup {name : String} {v : Value} (intact : st.Intact)
    (found : st.env.lookup name = some v) : st.heap.Holds v := by
  obtain ⟨b, bound, rfl⟩ := Option.map_eq_some_iff.mp found
  refine intact.bindings (st.env.levelOf name) name b ?_
  rw [Environment.bindingAt, Environment.scopeAt_levelOf]
  exact bound

end State

/-! ## Steps that keep a state intact -/

/-- Whatever a step comes to, it goes on from the state, and the value is a good one there. -/
def Outcome.Intact (good : State → α → Prop) (st : State) : Outcome α → Prop
  | .ok v st' => st.Onward st' ∧ good st' v
  | .failed _ st' => st.Onward st'
  | .broken _ => True

/-- There is nothing to be said about the value. -/
def anyValue : State → α → Prop := fun _ _ => True

def State.Holds (st : State) (v : Value) : Prop := st.heap.Holds v

def State.HoldsAll (st : State) (vs : List Value) : Prop := ∀ v ∈ vs, st.Holds v

def State.HoldsFlow (st : State) (flow : Flow) : Prop := ∀ v, flow = .returned v → st.Holds v

theorem State.holdsFlow_normal (st : State) : st.HoldsFlow .normal := by
  rintro v ⟨⟩

theorem State.holdsFlow_returned {st : State} {v : Value} (holds : st.Holds v) :
    st.HoldsFlow (.returned v) := by
  rintro w ⟨⟩
  exact holds

theorem State.Onward.holds {st st' : State} {v : Value} (onward : st.Onward st')
    (holds : st.Holds v) : st'.Holds v :=
  Heap.Holds.mono holds onward.size

namespace Outcome.Intact

variable {good : State → α → Prop} {better : State → β → Prop} {st mid : State} {o : Outcome α}

theorem since (onward : st.Onward mid) (intact : o.Intact good mid) : o.Intact good st := by
  cases o with
  | ok => exact ⟨onward.trans intact.1, intact.2⟩
  | failed => exact onward.trans intact
  | broken => trivial

/-- One step after the other. -/
theorem bind {x : Exec α} {f : α → Exec β} (first : (x st).Intact good st)
    (rest : ∀ v mid, st.Onward mid → good mid v → (f v mid).Intact better mid) :
    ((x >>= f) st).Intact better st := by
  rw [Exec.bind_apply]
  cases hx : x st with
  | ok v mid =>
    rw [hx] at first
    exact (rest v mid first.1 first.2).since first.1
  | failed =>
    rw [hx] at first
    exact first
  | broken => trivial

theorem within {x : Exec α} {span : Span} (intact : (x st).Intact good st) :
    (Exec.within span x st).Intact good st := by
  rw [Exec.within_apply]
  cases hx : x st <;> rw [hx] at intact <;> exact intact

/-- The state is changed once more, to one that is no less intact. -/
theorem change {f : State → State} (intact : o.Intact good mid)
    (kept : ∀ last, mid.Onward last → st.Onward (f last))
    (holds : ∀ v last, good last v → good (f last) v) : (o.change f).Intact good st := by
  cases o with
  | ok v last => exact ⟨kept last intact.1, holds v last intact.2⟩
  | failed f last => exact kept last intact
  | broken => trivial

end Outcome.Intact

namespace State.Intact

variable {good : State → α → Prop} {st : State}

theorem pure {v : α} (intact : st.Intact) (holds : good st v) :
    ((Pure.pure v : Exec α) st).Intact good st :=
  ⟨intact.onward, holds⟩

theorem normal (intact : st.Intact) :
    ((Pure.pure .normal : Exec Flow) st).Intact State.HoldsFlow st :=
  intact.pure st.holdsFlow_normal

theorem fail (intact : st.Intact) (cause : Fault.Cause) :
    (Exec.fail cause st : Outcome α).Intact good st :=
  intact.onward

theorem ofExcept {r : Except Fault.Cause α} (intact : st.Intact)
    (holds : ∀ v, r = .ok v → good st v) : (Exec.ofExcept r st).Intact good st := by
  cases r with
  | ok v => exact ⟨intact.onward, holds v rfl⟩
  | error cause => exact intact.onward

/-- An operation on the bindings, if what it binds is held by the heap. -/
theorem change {change : Environment → Except Refusal Environment} (op : Operation)
    {cause : Refusal → Fault.Cause} (intact : st.Intact)
    (known : change = op.apply) (held : ∀ b, op.binding? = some b → st.Holds b.value) :
    (Exec.bindings change cause st).Intact anyValue st := by
  unfold Exec.bindings
  subst known
  cases hop : op.apply st.env with
  | error r => exact intact.onward
  | ok env =>
    refine ⟨intact.setEnv fun level name b found => ?_, trivial⟩
    rw [(Operation.changes_of_apply hop).bindings] at found
    split at found
    · exact held b found
    · exact intact.bindings level name b found

/-- An operation that binds no variable. -/
theorem changeUnbound {change : Environment → Except Refusal Environment} (op : Operation)
    {cause : Refusal → Fault.Cause} (intact : st.Intact) (known : change = op.apply)
    (unbound : op.binding? = none) : (Exec.bindings change cause st).Intact anyValue st :=
  intact.change op known (by simp [unbound])

end State.Intact

/-! ## Expressions -/

/-- The parts of a program keep states intact, and come to values that the heap holds. -/
structure Evaluator.Intact (ev : Evaluator) : Prop where
  expr : ∀ e st, st.Intact → (ev.expr e st).Intact State.Holds st
  stmt : ∀ s st, st.Intact → (ev.stmt s st).Intact State.HoldsFlow st

theorem intact_namedArray (name : String) {st : State} (intact : st.Intact) :
    (namedArray name st).Intact (fun st handle => handle < st.heap.size) st := by
  unfold namedArray
  rw [Exec.get_bind]
  cases found : st.env.lookup name with
  | none => exact intact.fail _
  | some v =>
    cases v with
    | array handle => exact intact.pure (intact.holds_of_lookup found handle rfl)
    | number | text | boolean | void => exact intact.fail _

theorem holds_getD {st : State} (intact : st.Intact) (handle place : ℕ) :
    st.Holds ((st.heap.items handle).getD place .void) := by
  rw [Array.getD_eq_getD_getElem?]
  cases found : (st.heap.items handle)[place]? with
  | none => exact st.heap.holds_void
  | some v => exact intact.heap handle v (Array.mem_toList_iff.mpr (Array.mem_of_getElem? found))

theorem intact_elementAt (array : String) (handle : ℕ) (index : Value) {st : State}
    (intact : st.Intact) : (elementAt array handle index st).Intact State.Holds st := by
  unfold elementAt
  rw [Exec.get_bind]
  have found : (Exec.ofExcept (checkIndex array (st.heap.lengthOf handle) index) st).Intact
      anyValue st :=
    intact.ofExcept fun _ _ => trivial
  refine found.bind fun place mid onward _ => ?_
  exact onward.intact.pure (onward.holds (holds_getD intact handle place))

theorem intact_pushElement {st : State} {handle : ℕ} {v : Value} (intact : st.Intact)
    (holds : st.Holds v) : (pushElement handle v st).Intact State.Holds st :=
  ⟨intact.setHeap (intact.heap.push holds), Heap.holds_number _ _⟩

theorem intact_removeElement (array : String) (handle : ℕ) (key : Value) {st : State}
    (intact : st.Intact) : (removeElement array handle key st).Intact State.Holds st := by
  unfold removeElement
  rw [Exec.get_bind]
  have found : (Exec.ofExcept (keyPlace st.heap array handle key) st).Intact anyValue st :=
    intact.ofExcept fun _ _ => trivial
  refine found.bind fun place mid onward _ => ?_
  have erased : mid.Onward { mid with heap := mid.heap.eraseAt handle place } :=
    onward.intact.setHeap onward.intact.heap.eraseAt
  exact ⟨erased, erased.holds (onward.holds (holds_getD intact handle place))⟩

/-- The frame of a call binds the parameters to the arguments. -/
theorem holds_callFrame {h : Heap} {params : List String} {values : List Value}
    {frame frame' : Scope} (held : ∀ v ∈ values, h.Holds v)
    (old : ∀ name b, frame.find? name = some b → h.Holds b.value)
    (made : callFrame params values frame = .ok frame') :
    ∀ name b, frame'.find? name = some b → h.Holds b.value := by
  induction params generalizing values frame with
  | nil =>
    cases made
    exact old
  | cons param params ih =>
    unfold callFrame at made
    split at made
    · cases made
    refine ih (fun v mem => held v (List.mem_of_mem_tail mem)) (fun name b found => ?_) made
    rw [Scope.find?_define] at found
    split at found
    · cases found
      cases values with
      | nil => exact h.holds_void
      | cons v values => exact held v List.mem_cons_self
    · exact old name b found

theorem State.Intact.pushFrame {st : State} {frame : Scope} (intact : st.Intact)
    (held : ∀ name b, frame.find? name = some b → st.Holds b.value) :
    st.Onward { st with env := st.env.pushFrame frame } := by
  refine intact.setEnv fun level name b found => ?_
  obtain _ | _ | depth := level
  · exact intact.bindings .globals name b found
  · exact held name b found
  · exact intact.bindings (.frame depth) name b found

theorem State.Intact.popFrame {st : State} (intact : st.Intact) :
    st.Onward { st with env := st.env.popFrame } := by
  refine intact.setEnv fun level name b found => ?_
  obtain _ | depth := level
  · exact intact.bindings .globals name b found
  · refine intact.bindings (.frame (depth + 1)) name b ?_
    simpa [Environment.bindingAt, Environment.scopeAt, Environment.popFrame] using found

section

variable {h : Heap} {a b v : Value} {op : BinaryOperator}

theorem holds_of_comparison {numbers : Float → Float → Bool} {texts : String → String → Bool}
    (applied : op.comparison numbers texts a b = .ok v) : h.Holds v := by
  unfold BinaryOperator.comparison at applied
  split at applied <;> cases applied <;> simp

theorem holds_of_arithmetic {f : Float → Float → Float} (applied : op.arithmetic f a b = .ok v) :
    h.Holds v := by
  unfold BinaryOperator.arithmetic at applied
  split at applied <;> cases applied
  simp

theorem holds_of_addition (applied : BinaryOperator.addition h a b = .ok v) : h.Holds v := by
  unfold BinaryOperator.addition at applied
  split at applied <;> cases applied <;> simp

/-- No operator comes to an array. -/
theorem holds_of_binary (applied : op.apply h a b = .ok v) : h.Holds v := by
  cases op with
  | eq | notEq | strictEq | strictNotEq | and | or =>
    cases applied
    simp
  | lt | ltEq | gt | gtEq => exact holds_of_comparison applied
  | add => exact holds_of_addition applied
  | sub | mul | div | mod | pow | bitXor => exact holds_of_arithmetic applied

theorem holds_of_unary {op : UnaryOperator} (applied : op.apply h a = .ok v) : h.Holds v := by
  unfold UnaryOperator.apply at applied
  split at applied <;> cases applied <;> simp

theorem holds_of_math {function : MathFunction} (applied : function.apply a = .ok v) :
    h.Holds v := by
  unfold MathFunction.apply at applied
  split at applied <;> cases applied
  simp

end

theorem intact_readFile (host : Host) (name : String) (path : Path) {st : State}
    (intact : st.Intact) : (host.readFile name path st).Intact anyValue st := by
  unfold Host.readFile
  cases host.files.find? path with
  | none => trivial
  | some entry =>
    cases entry with
    | text text => exact intact.pure trivial
    | unreadable => exact intact.fail _

theorem intact_parseJson (v : Value) {st : State} (intact : st.Intact) :
    (parseJson v st).Intact State.Holds st := by
  cases v with
  | text text =>
    unfold parseJson
    dsimp only
    split
    · next v heap read =>
      obtain ⟨grows, held⟩ := Heap.grows_ofJson read intact.heap
      exact ⟨intact.setHeap grows, held⟩
    · exact intact.onward
  | number | boolean | array | void => exact intact.fail _

theorem intact_textual (function : TextFunction) (v : Value) {st : State} (intact : st.Intact) :
    (textual function v st).Intact State.Holds st := by
  unfold textual
  split
  · next w heap applied =>
    obtain ⟨grows, held⟩ := Heap.grows_ofText applied intact.heap
    exact ⟨intact.setHeap grows, held⟩
  · exact intact.onward

section

variable {ev : Evaluator} (intact : ev.Intact)
include intact

theorem intact_all (es : List Expr) {st : State} (start : st.Intact) :
    (ev.all es st).Intact State.HoldsAll st := by
  induction es generalizing st with
  | nil => exact start.pure (List.forall_mem_nil _)
  | cons e es ih =>
    refine (intact.expr e st start).bind fun v mid onward held => ?_
    refine (ih onward.intact).bind fun vs last onward' rest => ?_
    exact onward'.intact.pure (List.forall_mem_cons.mpr ⟨onward'.holds held, rest⟩)

theorem intact_block (ss : List Stmt) {st : State} (start : st.Intact) :
    (ev.block ss st).Intact State.HoldsFlow st := by
  induction ss generalizing st with
  | nil => exact start.normal
  | cons s ss ih =>
    refine (intact.stmt s st start).bind fun flow mid onward held => ?_
    cases flow with
    | normal => exact ih onward.intact
    | returned v => exact onward.intact.pure held

theorem intact_holds (e : Expr) {st : State} (start : st.Intact) :
    (ev.holds e st).Intact anyValue st := by
  refine (intact.expr e st start).bind fun v mid onward _ => ?_
  rw [Exec.get_bind]
  exact onward.intact.pure trivial

theorem intact_call (name : String) (arguments : List Expr) {st : State} (start : st.Intact) :
    (call ev name arguments st).Intact State.Holds st := by
  unfold call
  rw [Exec.get_bind]
  cases st.env.function? name with
  | none => exact start.fail _
  | some f =>
    dsimp only
    split
    · exact start.fail _
    refine (intact_all intact arguments start).bind fun values mid onward held => ?_
    have framed : (Exec.ofExcept (callFrame f.params values Scope.empty) mid).Intact
        (fun st frame => ∀ name b, frame.find? name = some b → st.Holds b.value) mid :=
      onward.intact.ofExcept fun frame made =>
        holds_callFrame held (fun _ _ found => by cases found) made
    refine framed.bind fun frame last onward' held' => ?_
    have entered := onward'.intact.pushFrame held'
    have body : (Exec.withFrame frame (ev.block f.body) last).Intact State.HoldsFlow last := by
      rw [Exec.withFrame_apply]
      refine (intact_block intact f.body entered.intact).change (fun st onward => ?_) ?_
      · exact (entered.trans onward).trans onward.intact.popFrame
      · exact fun _ _ held => held
    refine body.bind fun flow st onward held => ?_
    cases flow with
    | normal => exact onward.intact.pure (Heap.holds_void _)
    | returned v => exact onward.intact.pure (held v rfl)

theorem intact_binary (op : BinaryOperator) (left right : Expr) {st : State}
    (start : st.Intact) : (binary ev op left right st).Intact State.Holds st := by
  have truth (b : Bool) {st : State} (start : st.Intact) :
      ((return .boolean b : Exec Value) st).Intact State.Holds st :=
    start.pure (Heap.holds_boolean _ b)
  have second {st : State} (start : st.Intact) :
      ((do return .boolean (← ev.holds right) : Exec Value) st).Intact State.Holds st :=
    (intact_holds intact right start).bind fun b mid onward _ => truth b onward.intact
  have both {st : State} (start : st.Intact) : ((do
      let a ← ev.expr left
      let b ← ev.expr right
      Exec.ofExcept (op.apply (← Exec.get).heap a b) : Exec Value) st).Intact State.Holds st := by
    refine (intact.expr left st start).bind fun a mid onward _ => ?_
    refine (intact.expr right mid onward.intact).bind fun b last onward' _ => ?_
    rw [Exec.get_bind]
    exact onward'.intact.ofExcept fun v => holds_of_binary
  cases op with
  | and =>
    refine (intact_holds intact left start).bind fun b mid onward _ => ?_
    cases b with
    | true => exact second onward.intact
    | false => exact truth false onward.intact
  | or =>
    refine (intact_holds intact left start).bind fun b mid onward _ => ?_
    cases b with
    | true => exact truth true onward.intact
    | false => exact second onward.intact
  | _ => exact both start

theorem intact_readText (host : Host) (path : Expr) {st : State} (start : st.Intact) :
    (readText host ev path st).Intact State.Holds st := by
  refine (intact.expr path st start).bind fun v mid onward _ => ?_
  cases v with
  | text name =>
    refine (intact_readFile host name _ onward.intact).bind fun text last onward' _ => ?_
    exact onward'.intact.pure (Heap.holds_text _ text)
  | number | boolean | array | void => exact onward.intact.fail _

/-- An operation on a named array: the array is looked up, then the operand is evaluated. -/
theorem intact_named (array : String) (operand : Expr) {f : ℕ → Value → Exec Value} {st : State}
    (start : st.Intact)
    (rest : ∀ handle v mid, mid.Intact → mid.Holds v → (f handle v mid).Intact State.Holds mid) :
    ((do
      let handle ← namedArray array
      let v ← ev.expr operand
      f handle v : Exec Value) st).Intact State.Holds st := by
  refine (intact_namedArray array start).bind fun handle mid onward _ => ?_
  refine (intact.expr operand mid onward.intact).bind fun v last onward' held => ?_
  exact rest handle v last onward'.intact held

/-- Whatever an expression is made of, it comes to a value that the heap holds. -/
theorem intact_valueOf (host : Host) (form : ExprForm) {st : State} (start : st.Intact) :
    (valueOf host ev form st).Intact State.Holds st := by
  cases form with
  | number x => exact start.pure (Heap.holds_number _ x)
  | text s => exact start.pure (Heap.holds_text _ s)
  | boolean b => exact start.pure (Heap.holds_boolean _ b)
  | void => exact start.pure (Heap.holds_void _)
  | name name =>
    simp only [valueOf, Exec.get_bind]
    cases found : st.env.lookup name with
    | none => exact start.fail _
    | some v => exact start.pure (start.holds_of_lookup found)
  | array items =>
    refine (intact_all intact items start).bind fun vs mid onward held => ?_
    obtain ⟨grows, new⟩ := onward.intact.heap.alloc held
    exact ⟨onward.intact.setHeap grows, new⟩
  | binary op left right => exact intact_binary intact op left right start
  | unary op operand =>
    refine (intact.expr operand st start).bind fun v mid onward _ => ?_
    rw [Exec.get_bind]
    exact onward.intact.ofExcept fun v => holds_of_unary
  | call function arguments => exact intact_call intact function arguments start
  | index array index =>
    exact intact_named intact array index start fun handle v mid start _ =>
      intact_elementAt array handle v start
  | read path => exact intact_readText intact host path start
  | append array value =>
    exact intact_named intact array value start fun _ _ _ start held =>
      intact_pushElement start held
  | remove array key =>
    exact intact_named intact array key start fun handle v mid start _ =>
      intact_removeElement array handle v start
  | size array =>
    refine (intact_namedArray array start).bind fun handle mid onward _ => ?_
    exact onward.intact.pure (Heap.holds_number _ _)
  | toJson value =>
    refine (intact.expr value st start).bind fun v mid onward _ => ?_
    rw [Exec.get_bind]
    cases mid.heap.toJson v with
    | ok text => exact onward.intact.pure (Heap.holds_text _ text)
    | error trouble => exact onward.intact.fail _
  | parseJson text =>
    exact (intact.expr text st start).bind fun v mid onward _ => intact_parseJson v onward.intact
  | math function argument =>
    refine (intact.expr argument st start).bind fun v mid onward _ => ?_
    exact onward.intact.ofExcept fun w => holds_of_math
  | textual function argument =>
    exact (intact.expr argument st start).bind fun v mid onward _ =>
      intact_textual function v onward.intact

/-! ## Statements -/

theorem intact_declare (name : String) (value : Expr) (immutable : Bool) {st : State}
    (start : st.Intact) : (declare ev name value immutable st).Intact State.HoldsFlow st := by
  refine (intact.expr value st start).bind fun v mid onward held => ?_
  refine (onward.intact.change (.declare name v immutable) rfl ?_).bind fun _ last onward' _ =>
    onward'.intact.normal
  rintro b ⟨⟩
  exact held

theorem intact_assign (name : String) (value : Expr) {st : State} (start : st.Intact) :
    (assign ev name value st).Intact State.HoldsFlow st := by
  refine (start.changeUnbound (.check name) rfl rfl).bind fun _ mid onward _ => ?_
  refine (intact.expr value mid onward.intact).bind fun v last onward' held => ?_
  refine (onward'.intact.change (.assign name v) rfl ?_).bind fun _ _ onward'' _ =>
    onward''.intact.normal
  rintro b ⟨⟩
  exact held

theorem intact_while (condition : Expr) (body : List Stmt) (rounds : ℕ) {st : State}
    (start : st.Intact) : (whileLoop ev condition body rounds st).Intact State.HoldsFlow st := by
  induction rounds generalizing st with
  | zero => trivial
  | succ rounds ih =>
    refine (intact_holds intact condition start).bind fun b mid onward _ => ?_
    cases b with
    | false => exact onward.intact.normal
    | true =>
      refine (intact_block intact body onward.intact).bind fun flow last onward' held => ?_
      cases flow with
      | normal => exact ih onward'.intact
      | returned v => exact onward'.intact.pure held

omit intact in
theorem intact_setCounter (counter : String) (x : Float) {st : State} (start : st.Intact) :
    (setCounter counter x st).Intact anyValue st := by
  refine start.change (.setGlobal counter (.number x)) rfl ?_
  rintro b ⟨⟩
  exact Heap.holds_number _ x

theorem intact_countRounds (counter : String) (last : Float) (body : List Stmt) (rounds : ℕ)
    (x : Float) {st : State} (start : st.Intact) :
    (countRounds ev counter last body rounds x st).Intact State.HoldsFlow st := by
  induction rounds generalizing st x with
  | zero => trivial
  | succ rounds ih =>
    unfold countRounds
    split
    · refine (intact_setCounter counter x start).bind fun _ mid onward _ => ?_
      refine (intact_block intact body onward.intact).bind fun flow last onward' held => ?_
      cases flow with
      | normal => exact ih _ onward'.intact
      | returned v => exact onward'.intact.pure held
    · exact start.normal

theorem intact_loopBound (e : Expr) (which : String) {st : State} (start : st.Intact) :
    (loopBound ev e which st).Intact anyValue st := by
  refine (intact.expr e st start).bind fun v mid onward _ => ?_
  cases v with
  | number x => exact onward.intact.pure trivial
  | text | boolean | array | void => exact onward.intact.onward

omit intact in
theorem State.Intact.unsetGlobal {st : State} (name : String) (start : st.Intact) :
    st.Onward { st with env := st.env.unsetGlobal name } := by
  refine start.setEnv fun level other b found => ?_
  cases level with
  | globals =>
    refine start.bindings .globals other b ?_
    simp only [Environment.bindingAt, Environment.scopeAt, Environment.unsetGlobal,
      Option.bind_some, Scope.find?_without] at found ⊢
    split at found
    · cases found
    · exact found
  | frame depth => exact start.bindings (.frame depth) other b found

theorem intact_countLoop (rounds : ℕ) (counter : String) (first last : Expr) (body : List Stmt)
    {st : State} (start : st.Intact) :
    (countLoop ev rounds counter first last body st).Intact State.HoldsFlow st := by
  refine (intact_loopBound intact first "start" start).bind fun x mid onward _ => ?_
  refine (intact_loopBound intact last "end" onward.intact).bind fun y mid onward _ => ?_
  refine (intact_setCounter counter x onward.intact).bind fun _ mid onward _ => ?_
  have counted := intact_countRounds intact counter y body rounds x onward.intact
  exact counted.change (fun _ onward => onward.trans (onward.intact.unsetGlobal counter))
    fun _ _ held => held

theorem intact_joinAll (fault : Option Fault) (value : Option Value) (ss : List Stmt)
    {st : State} (start : st.Intact) (held : ∀ v, value = some v → st.Holds v) :
    (joinAll ev fault value ss st).Intact State.HoldsFlow st := by
  induction ss generalizing fault value st with
  | nil =>
    cases fault with
    | some f => exact start.onward
    | none =>
      cases value with
      | none => exact start.normal
      | some v =>
        exact start.pure (State.holdsFlow_returned (held v rfl))
  | cons s ss ih =>
    have first := intact.stmt s st start
    unfold joinAll
    cases hs : ev.stmt s st with
    | ok flow mid =>
      rw [hs] at first
      obtain ⟨onward, holds⟩ := first
      have kept : ∀ v, value = some v → mid.Holds v := fun v same => onward.holds (held v same)
      cases flow with
      | normal => exact (ih _ _ onward.intact kept).since onward
      | returned w =>
        refine (ih _ _ onward.intact fun v same => ?_).since onward
        cases value with
        | none =>
          cases same
          exact holds w rfl
        | some =>
          cases same
          exact kept _ rfl
    | failed f mid =>
      rw [hs] at first
      exact (ih _ _ first.intact fun v same => first.holds (held v same)).since first
    | broken => trivial

theorem intact_runText (source : String) {st : State} (start : st.Intact) :
    (runText ev source st).Intact anyValue st := by
  unfold runText
  cases parse source with
  | error e => exact start.onward
  | ok ss =>
    exact (intact_block intact ss start).bind fun _ mid onward _ => onward.intact.pure trivial

omit intact in
/-- What is being run is no part of what a state holds. -/
theorem State.Intact.setIncludes {st : State} (start : st.Intact) (includes : List Path) :
    st.Onward { st with includes } :=
  ⟨le_rfl, start.bindings, start.heap⟩

theorem intact_connect (host : Host) (span : Span) (name : String) {st : State}
    (start : st.Intact) : (connect host ev span name st).Intact State.HoldsFlow st := by
  unfold connect
  split
  · exact start.onward
  rw [Exec.get_bind]
  split
  · exact start.onward
  refine (intact_readFile host name _ start).within.bind fun source mid onward _ => ?_
  have entered := onward.intact.setIncludes (host.resolve st.includes name :: mid.includes)
  have inside : (Exec.withFile (host.resolve st.includes name) (runText ev source) mid).Intact
      anyValue mid := by
    rw [Exec.withFile_apply]
    refine (intact_runText intact source entered.intact).change (fun last onward => ?_) ?_
    · exact (entered.trans onward).trans (onward.intact.setIncludes _)
    · exact fun _ _ _ => trivial
  cases hrun : Exec.withFile (host.resolve st.includes name) (runText ev source) mid with
  | ok _ last =>
    rw [hrun] at inside
    exact ⟨inside.1, last.holdsFlow_normal⟩
  | failed f last =>
    rw [hrun] at inside
    exact inside
  | broken => trivial

/-- Whatever a statement is made of, it keeps a state intact. -/
theorem intact_perform (host : Host) (rounds : ℕ) (span : Span) (form : StmtForm) {st : State}
    (start : st.Intact) :
    (perform host ev rounds span form st).Intact State.HoldsFlow st := by
  cases form with
  | declare name value immutable => exact intact_declare intact name value immutable start
  | assign name value => exact intact_assign intact name value start
  | print channel value =>
    refine (intact.expr value st start).bind fun v mid onward _ => ?_
    exact ⟨⟨le_rfl, onward.intact.bindings, onward.intact.heap⟩, State.holdsFlow_normal _⟩
  | branch condition thenBlock elseBlock =>
    refine (intact_holds intact condition start).bind fun b mid onward _ => ?_
    cases b with
    | true => exact intact_block intact thenBlock onward.intact
    | false => exact intact_block intact (elseBlock.getD []) onward.intact
  | loop counter first last body =>
    exact intact_countLoop intact rounds counter first last body start
  | «while» condition body => exact intact_while intact condition body rounds start
  | function name params body =>
    exact (start.changeUnbound (.defineFunction ⟨name, params, body⟩) rfl rfl).bind
      fun _ _ onward _ => onward.intact.normal
  | «return» value =>
    cases value with
    | none => exact start.pure (State.holdsFlow_returned (Heap.holds_void _))
    | some e =>
      exact (intact.expr e st start).bind fun v mid onward held =>
        onward.intact.pure (State.holdsFlow_returned held)
  | deleteVariable name =>
    exact (start.changeUnbound (.deleteVariable name) rfl rfl).bind
      fun _ _ onward _ => onward.intact.normal
  | deleteFunction name =>
    exact (start.changeUnbound (.deleteFunction name) rfl rfl).bind
      fun _ _ onward _ => onward.intact.normal
  | connect path => exact intact_connect intact host span path start
  | async body => exact intact_joinAll intact none none body start (by simp)
  | value e =>
    exact (intact.expr e st start).bind fun _ _ onward _ => onward.intact.normal

end

/-! ## Whole runs -/

/-- No run loses an array or gets at one that is not there. -/
theorem intact_evaluator (host : Host) (fuel : ℕ) : (evaluator host fuel).Intact := by
  induction fuel with
  | zero => exact ⟨fun _ _ _ => trivial, fun _ _ _ => trivial⟩
  | succ fuel ih =>
    constructor
    · rintro ⟨span, form⟩ st start
      exact (intact_valueOf ih host form start).within
    · rintro ⟨span, form⟩ st start
      exact (intact_perform ih host fuel span form start).within

end BraceScript
