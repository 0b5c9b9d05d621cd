-- How the visits of a node hang together: between two of them the state only
-- changes in a few ways, and each begins in the state that the one before has
-- left. What is true of these ways and of each visit is true of the node.
import BraceScript.Proofs.Run.Outcomes
import BraceScript.Proofs.Run.Visits

namespace BraceScript

variable {α β : Type}

/-! ## What happens between visits -/

/-- What visits belong to: a node, or its rounds if it is a counting loop, the body of a
function, or a whole text. -/
inductive Home where
  | node (n : Node)
  | rounds (n : Node) (counter : String)
  | body (ss : List Stmt)
  | text (source : String)

namespace Home

/-- The nodes that may be visited. -/
def nodes : Home → List Node
  | .node n | .rounds n _ => n.parts
  | .body ss => ss.map .stmt
  | .text source =>
    match parse source with
    | .ok ss => ss.map .stmt
    | .error _ => [.text source]

/-- The node that is being run itself. -/
def node? : Home → Option Node
  | .node n | .rounds n _ => some n
  | .body _ | .text _ => none

/-- The counter that the rounds are counted with. -/
def counter? : Home → Option String
  | .rounds _ counter => some counter
  | .node _ | .body _ | .text _ => none

end Home

/-- The places that a fault may name which arises in a node itself. -/
def Node.places (n : Node) : List Span := n.span :: n.parts.map Node.span

/-- The fault has only just arisen, in the node itself. -/
structure Node.Raises (n : Node) (f : Fault) : Prop where
  origin : f.origin = none
  notes : f.notes = []
  span : ∀ s, f.span = some s → s ∈ n.places

/-- The name of the file, if the node is a statement that connects one. -/
def Node.connects? : Node → Option String
  | .stmt (.at _ (.connect name)) => some name
  | _ => none

/-- A change of the state between two visits. -/
inductive Change (home : Home) (st : State) : State → Prop where
  | heap (heap : Heap) : Change home st { st with heap }
  | print (event : Event) : Change home st { st with output := st.output.push event }
  | declare {name value immutable env} :
    st.env.declare name value immutable = .ok env → Change home st { st with env }
  | assign {name value env} : st.env.assign name value = .ok env → Change home st { st with env }
  | setGlobal {name value env} : home.counter? = some name →
    st.env.setGlobal name value = .ok env → Change home st { st with env }
  | deleteVariable {name env} :
    st.env.deleteVariable name = .ok env → Change home st { st with env }
  | defineFunction {f env} : (∀ s ∈ f.body, .stmt s ∈ home.nodes) →
    st.env.defineFunction f = .ok env → Change home st { st with env }
  | deleteFunction {name env} :
    st.env.deleteFunction name = .ok env → Change home st { st with env }

/-- From a state, the visits follow on each other and lead to an outcome. -/
inductive Threads (host : Host) (ev : Evaluator) :
    Home → State → List Visit → Outcome Unit → Prop where
  | done {home st} : Threads host ev home st [] (.ok () st)
  | change {home st st'} : Change home st st' → Threads host ev home st [] (.ok () st')
  | raise {home n st f} : home.node? = some n → n.Raises f →
    Threads host ev home st [] (.failed f st)
  | stop {home st reason} : Threads host ev home st [] (.broken reason)
  | visit {home st n} : n ∈ home.nodes → Threads host ev home st [⟨n, st, []⟩] (ev.run n st)
  | andThen {home st mid vs ws o} :
    Threads host ev home st vs (.ok () mid) → Threads host ev home mid ws o →
    Threads host ev home st (vs ++ ws) o
  | joined {home n st mid f vs o} : n ∈ home.nodes → ev.run n st = .failed f mid →
    Threads host ev home mid vs o → Threads host ev home st (⟨n, st, []⟩ :: vs) (o.joining f)
  | call {home st mid name f values frame vs ws o} :
    st.env.function? name = some f → Threads host ev home st vs (.ok () mid) →
    callFrame f.params values Scope.empty = .ok frame →
    Threads host ev (.body f.body) { mid with env := mid.env.pushFrame frame } ws o →
    Threads host ev home st (vs ++ ws.map (Visit.inside (.call f)))
      (o.change fun st => { st with env := st.env.popFrame })
  | file {home st name path source vs o} :
    home.node?.bind Node.connects? = some name →
    path = host.resolve st.includes name → path ∉ st.includes →
    host.files.find? path = some (.text source) →
    Threads host ev (.text source) { st with includes := path :: st.includes } vs o →
    Threads host ev home st (vs.map (Visit.inside (.file path)))
      ((o.change fun st => { st with includes := st.includes.tail }).refault
        (·.connecting path.text name))
  | loop {n st counter value env vs o} : st.env.setGlobal counter value = .ok env →
    Threads host ev (.rounds n counter) { st with env } vs o →
    Threads host ev (.node n) st (vs.map (Visit.inside (.loop counter)))
      (o.change fun st => { st with env := st.env.unsetGlobal counter })

/-! ## Steps one after the other -/

variable {host : Host} {ev : Evaluator} {home : Home} {n : Node} {st : State}

theorem Threads.onward {o : Outcome α} {f : α → Exec β} {vs : List Visit}
    {ws : α → State → List Visit} (ho : Threads host ev home st vs o.void)
    (hf : ∀ v mid, o = .ok v mid → Threads host ev home mid (ws v mid) (f v mid).void) :
    Threads host ev home st (vs ++ o.onward ws) (o.andThen f).void := by
  cases o with
  | ok v mid => exact .andThen ho (hf v mid rfl)
  | failed fault mid =>
    simp only [Outcome.onward, List.append_nil]
    exact ho
  | broken reason =>
    simp only [Outcome.onward, List.append_nil]
    exact ho

theorem Threads.bind {x : Exec α} {f : α → Exec β} {vs : List Visit}
    {ws : α → State → List Visit} (hx : Threads host ev home st vs (x st).void)
    (hf : ∀ v mid, x st = .ok v mid → Threads host ev home mid (ws v mid) (f v mid).void) :
    Threads host ev home st (vs ++ (x st).onward ws) ((x >>= f) st).void := by
  rw [Exec.bind_eq_andThen]
  exact hx.onward hf

/-- After an outcome nothing more is visited. -/
theorem Threads.onwardLast {o : Outcome α} {f : α → Exec β} {vs : List Visit}
    (ho : Threads host ev home st vs o.void)
    (hf : ∀ v mid, o = .ok v mid → Threads host ev home mid [] (f v mid).void) :
    Threads host ev home st vs (o.andThen f).void := by
  have none : o.onward (fun _ _ => ([] : List Visit)) = [] := by cases o <;> rfl
  rw [← List.append_nil vs, ← none]
  exact ho.onward hf

/-- Only the first of two steps visits anything. -/
theorem Threads.last {x : Exec α} {f : α → Exec β} {vs : List Visit}
    (hx : Threads host ev home st vs (x st).void)
    (hf : ∀ v mid, x st = .ok v mid → Threads host ev home mid [] (f v mid).void) :
    Threads host ev home st vs ((x >>= f) st).void := by
  rw [Exec.bind_eq_andThen]
  exact hx.onwardLast hf

/-- Only the second of two steps visits anything. -/
theorem Threads.first {x : Exec α} {f : α → Exec β} {ws : α → State → List Visit}
    (hx : Threads host ev home st [] (x st).void)
    (hf : ∀ v mid, x st = .ok v mid → Threads host ev home mid (ws v mid) (f v mid).void) :
    Threads host ev home st ((x st).onward ws) ((x >>= f) st).void :=
  Threads.bind hx hf

theorem threads_fail (cause : Fault.Cause) :
    Threads host ev (.node n) st [] (Exec.fail cause st : Outcome α).void :=
  .raise rfl ⟨rfl, rfl, by simp⟩

theorem threads_failAt {span : Span} (cause : Fault.Cause) (h : span ∈ n.places) :
    Threads host ev (.node n) st [] (Exec.failAt span cause st : Outcome α).void :=
  .raise rfl ⟨rfl, rfl, by simpa using h⟩

theorem threads_ofExcept (r : Except Fault.Cause α) :
    Threads host ev (.node n) st [] (Exec.ofExcept r st).void := by
  cases r with
  | ok v => exact .done
  | error cause => exact threads_fail cause

theorem threads_bindings {change : Environment → Except Refusal Environment}
    {cause : Refusal → Fault.Cause}
    (h : ∀ env, change st.env = .ok env → Change (.node n) st { st with env }) :
    Threads host ev (.node n) st [] (Exec.bindings change cause st).void := by
  unfold Exec.bindings
  cases hc : change st.env with
  | ok env => exact .change (h env hc)
  | error r => exact .raise rfl ⟨rfl, rfl, by simp⟩

theorem threads_readFile (name : String) (path : Path) :
    Threads host ev (.node n) st [] (host.readFile name path st).void := by
  unfold Host.readFile
  cases host.files.find? path with
  | none => exact .stop
  | some entry =>
    cases entry with
    | text text => exact .done
    | unreadable => exact threads_fail _

theorem threads_namedArray (name : String) :
    Threads host ev (.node n) st [] (namedArray name st).void := by
  unfold namedArray
  rw [Exec.get_bind]
  cases st.env.lookup name with
  | none => exact threads_fail _
  | some v => cases v <;> first | exact .done | exact threads_fail _

/-! ## Expressions -/

theorem threads_expr {e : Expr} (h : .expr e ∈ home.nodes) :
    Threads host ev home st [.expr e st] (ev.expr e st).void := by
  have visit : Threads host ev home st [.expr e st] (ev.run (.expr e) st) := .visit h
  simp only [Evaluator.run, Exec.bind_apply] at visit
  cases hx : ev.expr e st <;> simp only [hx] at visit <;> exact visit

theorem threads_stmt {s : Stmt} (h : .stmt s ∈ home.nodes) :
    Threads host ev home st [.stmt s st] (ev.stmt s st).void := by
  have visit : Threads host ev home st [.stmt s st] (ev.run (.stmt s) st) := .visit h
  simp only [Evaluator.run, Exec.bind_apply] at visit
  cases hx : ev.stmt s st <;> simp only [hx] at visit <;> exact visit

theorem threads_holds {e : Expr} (h : .expr e ∈ home.nodes) :
    Threads host ev home st [.expr e st] (ev.holds e st).void :=
  (threads_expr h).last fun _ _ _ => .done

theorem threads_all {es : List Expr} (h : ∀ e ∈ es, .expr e ∈ home.nodes) :
    Threads host ev home st (ev.visitAll es st) (ev.all es st).void := by
  induction es generalizing st with
  | nil => exact .done
  | cons e es ih =>
    apply (threads_expr (h e (by simp))).bind
    intro v mid _
    exact (ih fun e' he' => h e' (by simp [he'])).last fun _ _ _ => .done

theorem threads_block {ss : List Stmt} (h : ∀ s ∈ ss, .stmt s ∈ home.nodes) :
    Threads host ev home st (ev.visitBlock ss st) (ev.block ss st).void := by
  induction ss generalizing st with
  | nil => exact .done
  | cons s ss ih =>
    apply (threads_stmt (h s (by simp))).bind
    intro flow mid _
    cases flow with
    | normal => exact ih fun s' hs' => h s' (by simp [hs'])
    | returned v => exact .done

theorem threads_call {name : String} {es : List Expr} (h : ∀ e ∈ es, .expr e ∈ n.parts) :
    Threads host ev (.node n) st (ev.visitCall name es st) (call ev name es st).void := by
  unfold call Evaluator.visitCall
  rw [Exec.get_bind]
  cases hf : st.env.function? name with
  | none => exact threads_fail _
  | some f =>
    simp only
    split
    · exact threads_fail _
    · have args : Threads host ev (.node n) st (ev.visitAll es st) (ev.all es st).void :=
        threads_all h
      rw [Exec.bind_eq_andThen]
      cases hvs : ev.all es st with
      | failed fault mid =>
        rw [hvs] at args
        simp only [Outcome.onward, List.append_nil]
        exact args
      | broken reason =>
        rw [hvs] at args
        simp only [Outcome.onward, List.append_nil]
        exact args
      | ok values mid =>
        rw [hvs] at args
        simp only [Outcome.onward, Outcome.andThen]
        cases hframe : callFrame f.params values Scope.empty with
        | error cause =>
          exact args.andThen (threads_fail (α := Value) cause)
        | ok frame =>
          have body := Threads.call hf args hframe
            (threads_block fun s (hs : s ∈ f.body) => List.mem_map.2 ⟨s, hs, rfl⟩)
          rw [← Outcome.void_change, ← Exec.withFrame_apply] at body
          exact body.onwardLast fun flow _ _ => by cases flow <;> exact .done

theorem threads_binary (op : BinaryOperator) {left right : Expr}
    (hl : .expr left ∈ n.parts) (hr : .expr right ∈ n.parts) :
    Threads host ev (.node n) st (ev.visitBinary op left right st)
      (binary ev op left right st).void := by
  have both : Threads host ev (.node n) st (ev.visitAll [left, right] st)
      ((do
        let a ← ev.expr left
        let b ← ev.expr right
        Exec.ofExcept (op.apply (← Exec.get).heap a b) : Exec Value) st).void := by
    apply (threads_expr hl).bind
    intro a mid _
    have second : Threads host ev (.node n) mid [.expr right mid] (ev.expr right mid).void :=
      threads_expr hr
    apply second.bind
    intro b mid' _
    rw [Exec.get_bind]
    exact threads_ofExcept _
  unfold Evaluator.visitBinary
  cases op with
  | and =>
    apply (threads_holds hl).bind
    intro b mid _
    cases b with
    | true => exact (threads_holds hr).last fun _ _ _ => .done
    | false => exact .done
  | or =>
    apply (threads_holds hl).bind
    intro b mid _
    cases b with
    | true => exact .done
    | false => exact (threads_holds hr).last fun _ _ _ => .done
  | _ => exact both

theorem threads_readText {path : Expr} (h : .expr path ∈ n.parts) :
    Threads host ev (.node n) st [.expr path st] (readText host ev path st).void := by
  unfold readText
  apply (threads_expr h).last
  intro v mid _
  cases v with
  | text name =>
    simp only
    rw [Exec.get_bind]
    exact (threads_readFile _ _).last fun _ _ _ => .done
  | _ => exact threads_fail _

theorem threads_parseJson (v : Value) : Threads host ev (.node n) st [] (parseJson v st).void := by
  cases v with
  | text text =>
    unfold parseJson
    dsimp only
    split
    · exact .change (.heap _)
    · exact threads_fail (α := Value) _
  | _ => exact threads_fail (α := Value) _

theorem threads_textual (function : TextFunction) (v : Value) :
    Threads host ev (.node n) st [] (textual function v st).void := by
  unfold textual
  split
  · exact .change (.heap _)
  · exact threads_fail (α := Value) _

theorem threads_removeElement (array : String) (handle : Nat) (key : Value) :
    Threads host ev (.node n) st [] (removeElement array handle key st).void := by
  unfold removeElement
  rw [Exec.get_bind]
  apply (threads_ofExcept _).last
  intro place mid _
  exact Threads.last (x := Exec.modify _) (.change (.heap _)) fun _ _ _ => .done

/-- A node below that is run with the name of an array before it. -/
theorem threads_named {name : String} {e : Expr} {f : Nat → Value → Exec Value}
    (h : .expr e ∈ n.parts)
    (hf : ∀ handle v mid, Threads host ev (.node n) mid [] (f handle v mid).void) :
    Threads host ev (.node n) st ((namedArray name st).onward fun _ st => [.expr e st])
      ((do
        let handle ← namedArray name
        let v ← ev.expr e
        f handle v : Exec Value) st).void :=
  (threads_namedArray name).first fun handle _ _ => (threads_expr h).last fun v _ _ => hf handle v _

/-- Whatever an expression is made of, its visits follow on each other. -/
theorem threads_valueOf (form : ExprForm) (h : ∀ q ∈ form.parts, q ∈ n.parts) :
    Threads host ev (.node n) st (ev.visitValue form st) (valueOf host ev form st).void := by
  cases form with
  | number | text | boolean | void => exact .done
  | name name =>
    simp only [valueOf, Exec.get_bind]
    cases st.env.lookup name with
    | none => exact threads_fail _
    | some v => exact .done
  | array items =>
    have parts : ∀ e ∈ items, .expr e ∈ n.parts := fun e he => h _ (List.mem_map.2 ⟨e, he, rfl⟩)
    exact (threads_all parts).last fun vs mid _ => .change (.heap _)
  | binary op left right =>
    exact threads_binary op (h _ (by simp [ExprForm.parts])) (h _ (by simp [ExprForm.parts]))
  | unary op operand =>
    apply (threads_expr (h _ (by simp [ExprForm.parts]))).last
    intro v mid _
    rw [Exec.get_bind]
    exact threads_ofExcept _
  | call function arguments =>
    exact threads_call fun e he => h _ (List.mem_map.2 ⟨e, he, rfl⟩)
  | index array i =>
    apply threads_named (h _ (by simp [ExprForm.parts]))
    intro handle v mid
    unfold elementAt
    rw [Exec.get_bind]
    exact (threads_ofExcept _).last fun _ _ _ => .done
  | read path => exact threads_readText (h _ (by simp [ExprForm.parts]))
  | append array value =>
    apply threads_named (h _ (by simp [ExprForm.parts]))
    intro handle v mid
    exact Threads.last (x := Exec.modify _) (.change (.heap _)) fun _ _ _ => .done
  | remove array key =>
    exact threads_named (h _ (by simp [ExprForm.parts])) fun _ _ _ => threads_removeElement _ _ _
  | size array => exact (threads_namedArray array).last fun _ _ _ => .done
  | toJson value =>
    apply (threads_expr (h _ (by simp [ExprForm.parts]))).last
    intro v mid _
    rw [Exec.get_bind]
    cases mid.heap.toJson v with
    | ok text => exact .done
    | error trouble => exact threads_fail _
  | parseJson text =>
    exact (threads_expr (h _ (by simp [ExprForm.parts]))).last fun _ _ _ => threads_parseJson _
  | math function argument =>
    exact (threads_expr (h _ (by simp [ExprForm.parts]))).last fun _ _ _ => threads_ofExcept _
  | textual function argument =>
    exact (threads_expr (h _ (by simp [ExprForm.parts]))).last fun _ _ _ => threads_textual _ _

/-! ## Statements -/

theorem threads_assign {name : String} {e : Expr} (h : .expr e ∈ n.parts) :
    Threads host ev (.node n) st
      (match st.env.checkAssignable name with
        | .ok () => [.expr e st]
        | .error _ => [])
      (assign ev name e st).void := by
  unfold assign
  rw [Exec.bind_eq_andThen]
  simp only [Exec.bindings]
  cases st.env.checkAssignable name with
  | error r => exact .raise rfl ⟨rfl, rfl, by simp⟩
  | ok _ =>
    apply Threads.last (threads_expr h)
    intro v mid _
    exact (threads_bindings fun _ h => .assign h).last fun _ _ _ => .done

theorem threads_while {condition : Expr} {body : List Stmt} (hc : .expr condition ∈ n.parts)
    (hb : ∀ s ∈ body, .stmt s ∈ n.parts) (rounds : Nat) :
    Threads host ev (.node n) st (ev.visitWhile condition body rounds st)
      (whileLoop ev condition body rounds st).void := by
  induction rounds generalizing st with
  | zero => exact .stop
  | succ rounds ih =>
    apply (threads_holds hc).bind
    intro b mid _
    cases b with
    | false => exact .done
    | true =>
      apply (threads_block hb).bind
      intro flow mid' _
      cases flow with
      | normal => exact ih
      | returned v => exact .done

theorem threads_setCounter (counter : String) (x : Float) :
    Threads host ev (.rounds n counter) st [] (setCounter counter x st).void := by
  simp only [setCounter, Exec.bindings]
  cases hset : st.env.setGlobal counter (.number x) with
  | ok env => exact .change (.setGlobal rfl hset)
  | error r => exact .raise rfl ⟨rfl, rfl, by simp⟩

theorem threads_countRounds {counter : String} {last : Float} {body : List Stmt}
    (hb : ∀ s ∈ body, .stmt s ∈ n.parts) (rounds : Nat) (x : Float) :
    Threads host ev (.rounds n counter) st (ev.visitRounds counter last body rounds x st)
      (countRounds ev counter last body rounds x st).void := by
  induction rounds generalizing st x with
  | zero => exact .stop
  | succ rounds ih =>
    unfold Evaluator.visitRounds countRounds
    split
    · apply (threads_setCounter counter x).first
      intro _ mid _
      apply (threads_block hb).bind
      intro flow mid' _
      cases flow with
      | normal => exact ih _
      | returned v => exact .done
    · exact .done

theorem threads_loopBound {e : Expr} (which : String) (h : .expr e ∈ n.parts)
    (hplace : e.span ∈ n.places) :
    Threads host ev (.node n) st [.expr e st] (loopBound ev e which st).void := by
  apply (threads_expr h).last
  intro v mid _
  cases v with
  | number x => exact .done
  | _ => exact threads_failAt _ hplace

/-- From the binding of the counter on. -/
theorem threads_counting {counter : String} {last : Float} {body : List Stmt}
    (hb : ∀ s ∈ body, .stmt s ∈ n.parts) (rounds : Nat) (x : Float) :
    Threads host ev (.node n) st
      ((setCounter counter x st).onward fun _ st =>
        (ev.visitRounds counter last body rounds x st).map (Visit.inside (.loop counter)))
      ((do
        setCounter counter x
        Exec.afterwards (countRounds ev counter last body rounds x)
          fun st => { st with env := st.env.unsetGlobal counter } : Exec Flow) st).void := by
  rw [Exec.bind_eq_andThen]
  simp only [setCounter, Exec.bindings]
  cases henv : st.env.setGlobal counter (.number x) with
  | error r => exact .raise rfl ⟨rfl, rfl, by simp⟩
  | ok env =>
    have rounds : Threads host ev (.rounds n counter) { st with env }
        (ev.visitRounds counter last body rounds x { st with env })
        (countRounds ev counter last body rounds x { st with env }).void :=
      threads_countRounds hb rounds x
    have inner := Threads.loop henv rounds
    rwa [← Outcome.void_change] at inner

theorem threads_countLoop {rounds : Nat} {counter : String} {first last : Expr}
    {body : List Stmt} (h : ∀ q ∈ (StmtForm.loop counter first last body).parts, q ∈ n.parts)
    (hf : first.span ∈ n.places) (hl : last.span ∈ n.places) :
    Threads host ev (.node n) st (ev.visitLoop rounds counter first last body st)
      (countLoop ev rounds counter first last body st).void := by
  have hb : ∀ s ∈ body, .stmt s ∈ n.parts := fun s hs => h _ (by simp [StmtForm.parts, hs])
  apply (threads_loopBound "start" (h _ (by simp [StmtForm.parts])) hf).bind
  intro x mid _
  have second : Threads host ev (.node n) mid [.expr last mid]
      (loopBound ev last "end" mid).void :=
    threads_loopBound "end" (h _ (by simp [StmtForm.parts])) hl
  exact second.bind fun y mid' _ => threads_counting hb rounds x

/-- The first fault of a block that runs to its end goes with what comes after it. -/
theorem threads_joinAll {ss : List Stmt} (h : ∀ s ∈ ss, .stmt s ∈ n.parts) :
    ∃ o, Threads host ev (.node n) st (ev.visitJoined ss st) o ∧ ∀ fault value,
      (joinAll ev fault value ss st).void = (fault.elim o fun f => o.joining f) := by
  induction ss generalizing st with
  | nil =>
    refine ⟨_, .done, fun fault value => ?_⟩
    cases fault <;> cases value <;> rfl
  | cons s ss ih =>
    have first : Threads host ev (.node n) st [.stmt s st] (ev.stmt s st).void :=
      threads_stmt (h s (by simp))
    cases hs : ev.stmt s st with
    | ok flow mid =>
      obtain ⟨o, ho, heq⟩ := @ih mid fun s' hs' => h s' (by simp [hs'])
      rw [hs] at first
      refine ⟨o, ?_, fun fault value => ?_⟩
      · simpa [Evaluator.visitJoined, hs] using first.andThen ho
      · simp only [joinAll, hs]
        cases flow <;> exact heq _ _
    | failed f mid =>
      obtain ⟨o, ho, heq⟩ := @ih mid fun s' hs' => h s' (by simp [hs'])
      have fails : ev.run (.stmt s) st = .failed f mid := by
        simp [Evaluator.run, Exec.bind_apply, hs]
      refine ⟨o.joining f, ?_, fun fault value => ?_⟩
      · rw [Evaluator.visitJoined, hs]
        exact .joined (h s (by simp)) fails ho
      · simp only [joinAll, hs]
        rw [heq]
        cases fault <;> cases o <;> rfl
    | broken reason =>
      rw [hs] at first
      refine ⟨.broken reason, ?_, fun fault value => ?_⟩
      · simpa [Evaluator.visitJoined, hs, Outcome.void] using first
      · simp only [joinAll, hs]
        cases fault <;> rfl

theorem threads_runText (source : String) :
    Threads host ev (.text source) st (ev.visitText source st) (runText ev source st).void := by
  unfold Evaluator.visitText runText
  cases hp : parse source with
  | ok ss =>
    have nodes : ∀ s ∈ ss, .stmt s ∈ (Home.text source).nodes := by
      intro s hs
      simp only [Home.nodes, hp]
      exact List.mem_map.2 ⟨s, hs, rfl⟩
    exact (threads_block nodes).last fun _ _ _ => .done
  | error e =>
    have whole : .text source ∈ (Home.text source).nodes := by
      simp [Home.nodes, hp]
    have visit : Threads host ev (.text source) st [⟨.text source, st, []⟩]
        (ev.run (.text source) st) := .visit whole
    simpa only [Evaluator.run, hp, Outcome.void] using visit

/-- A file that is run in its place. -/
theorem threads_connected {name : String} {path : Path} {source : String}
    (hname : n.connects? = some name) (hpath : path = host.resolve st.includes name)
    (hnew : path ∉ st.includes)
    (hfile : host.files.find? path = some (.text source)) :
    Threads host ev (.node n) st
      ((ev.visitText source { st with includes := path :: st.includes }).map
        (Visit.inside (.file path)))
      ((match Exec.withFile path (runText ev source) st with
        | .ok () st => .ok .normal st
        | .failed fault st => .failed (fault.connecting path.text name) st
        | .broken reason => .broken reason : Outcome Flow)).void := by
  have text : Threads host ev (.text source) { st with includes := path :: st.includes } _
      (runText ev source { st with includes := path :: st.includes }).void :=
    threads_runText source
  have inner : Threads host ev (.node n) st _ _ := .file hname hpath hnew hfile text
  rw [← Outcome.void_change, ← Exec.withFile_apply] at inner
  cases h : Exec.withFile path (runText ev source) st <;> rw [h] at inner <;> exact inner

theorem threads_connect {span : Span} {name : String} (hname : n.connects? = some name)
    (h : span ∈ n.places) : Threads host ev (.node n) st (ev.visitConnect host name st)
      (connect host ev span name st).void := by
  unfold Evaluator.visitConnect connect
  by_cases hkq : name.endsWith ".kq"
  · by_cases hold : st.includes.contains (host.resolve st.includes name)
    · simp only [hkq, hold, Bool.not_true, Bool.false_or, if_true, if_false, Bool.false_eq_true,
        Exec.get_bind]
      exact threads_failAt _ h
    · simp only [hkq, hold, Bool.not_true, Bool.false_or, if_false, Bool.false_eq_true,
        Exec.get_bind]
      have new : host.resolve st.includes name ∉ st.includes := by simpa using hold
      unfold Host.readFile
      cases hfile : host.files.find? (host.resolve st.includes name) with
      | none => exact .stop
      | some entry =>
        cases entry with
        | text source => exact threads_connected hname rfl new hfile
        | unreadable =>
          exact .raise rfl ⟨rfl, rfl, by simpa [Fault.within] using h⟩
  · simp only [hkq]
    exact threads_failAt _ h

/-- Whatever a statement is made of, its visits follow on each other. -/
theorem threads_perform (span : Span) (rounds : Nat) (form : StmtForm) :
    Threads host ev (.node (.stmt (.at span form))) st (ev.visitForm host rounds form st)
      (perform host ev rounds span form st).void := by
  have h : ∀ q ∈ form.parts, q ∈ (Node.stmt (.at span form)).parts := fun _ hq => hq
  have hplaces : ∀ s ∈ span :: form.parts.map Node.span,
      s ∈ (Node.stmt (.at span form)).places := fun _ hs => hs
  cases form with
  | declare name value immutable =>
    apply (threads_expr (h _ (by simp [StmtForm.parts]))).last
    intro v mid _
    exact (threads_bindings fun _ h => .declare h).last fun _ _ _ => .done
  | assign name value =>
    exact threads_assign (h _ (by simp [StmtForm.parts]))
  | print channel value =>
    apply (threads_expr (h _ (by simp [StmtForm.parts]))).last
    intro v mid _
    exact Threads.last (x := Exec.print channel v) (.change (.print _)) fun _ _ _ => .done
  | branch condition thenBlock elseBlock =>
    apply (threads_holds (h _ (by simp [StmtForm.parts]))).bind
    intro b mid _
    cases b with
    | true => exact threads_block fun s hs => h _ (by simp [StmtForm.parts, hs])
    | false => exact threads_block fun s hs => h _ (by simp [StmtForm.parts, hs])
  | loop counter first last body =>
    exact threads_countLoop h (hplaces _ (by simp [StmtForm.parts, Node.span]))
      (hplaces _ (by simp [StmtForm.parts, Node.span]))
  | «while» condition body =>
    exact threads_while (h _ (by simp [StmtForm.parts]))
      (fun s hs => h _ (by simp [StmtForm.parts, hs])) rounds
  | function name params body =>
    refine (threads_bindings fun env henv => ?_).last fun _ _ _ => .done
    exact .defineFunction (fun s hs => h _ (by simpa [StmtForm.parts] using hs)) henv
  | «return» value =>
    cases value with
    | none => exact .done
    | some e => exact (threads_expr (h _ (by simp [StmtForm.parts]))).last fun _ _ _ => .done
  | deleteVariable name =>
    exact (threads_bindings fun _ h => .deleteVariable h).last fun _ _ _ => .done
  | deleteFunction name =>
    exact (threads_bindings fun _ h => .deleteFunction h).last fun _ _ _ => .done
  | connect path => exact threads_connect rfl (hplaces _ (by simp))
  | async body =>
    have parts : ∀ s ∈ body, .stmt s ∈ (Node.stmt (.at span (.async body))).parts := fun s hs =>
      h _ (by simpa [StmtForm.parts] using hs)
    obtain ⟨o, ho, heq⟩ := @threads_joinAll host ev _ st body parts
    rw [show (perform host ev rounds span (.async body) st).void = o from heq none none]
    exact ho
  | value value => exact (threads_expr (h _ (by simp [StmtForm.parts]))).last fun _ _ _ => .done

end BraceScript
