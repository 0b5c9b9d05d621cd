-- Not only the ends of runs are intact: every state in which a node begins or
-- ends has only handles that belong to an array. So whatever is said of an
-- intact state goes for every state that a session comes through.
import BraceScript.Proofs.Run.Course
import BraceScript.Proofs.Run.Handles

namespace BraceScript

variable {α : Type}

/-! ## The visits of a node -/

/-- The states in which the nodes are visited are intact. -/
def AllIntact (vs : List Visit) : Prop := ∀ v ∈ vs, v.state.Intact

theorem allIntact_append {vs ws : List Visit} :
    AllIntact (vs ++ ws) ↔ AllIntact vs ∧ AllIntact ws :=
  List.forall_mem_append

theorem AllIntact.inside {vs : List Visit} (intact : AllIntact vs) (setting : Setting) :
    AllIntact (vs.map (Visit.inside setting)) := by
  rintro _ mapped
  obtain ⟨v, mem, rfl⟩ := List.mem_map.mp mapped
  exact intact v mem

theorem State.Intact.visit {st : State} (start : st.Intact) (n : Node) (vs : List Visit)
    (rest : AllIntact vs) : AllIntact (⟨n, st, []⟩ :: vs) :=
  List.forall_mem_cons.mpr ⟨start, rest⟩

/-- The visits after a step. -/
theorem Outcome.Intact.visits {good : State → α → Prop} {o : Outcome α} {st : State}
    {ws : α → State → List Visit} (intact : o.Intact good st)
    (rest : ∀ v mid, mid.Intact → good mid v → AllIntact (ws v mid)) :
    AllIntact (o.onward ws) := by
  cases o with
  | ok v mid => exact rest v mid intact.1.intact intact.2
  | failed | broken => exact List.forall_mem_nil _

section

variable {ev : Evaluator} (intact : ev.Intact)
include intact

theorem allIntact_all (es : List Expr) {st : State} (start : st.Intact) :
    AllIntact (ev.visitAll es st) := by
  induction es generalizing st with
  | nil => exact List.forall_mem_nil _
  | cons e es ih =>
    exact start.visit _ _ ((intact.expr e st start).visits fun _ _ mid _ => ih mid)

theorem allIntact_block (ss : List Stmt) {st : State} (start : st.Intact) :
    AllIntact (ev.visitBlock ss st) := by
  induction ss generalizing st with
  | nil => exact List.forall_mem_nil _
  | cons s ss ih =>
    refine start.visit _ _ ((intact.stmt s st start).visits fun flow _ mid _ => ?_)
    cases flow with
    | normal => exact ih mid
    | returned => exact List.forall_mem_nil _

theorem allIntact_call (name : String) (arguments : List Expr) {st : State} (start : st.Intact) :
    AllIntact (ev.visitCall name arguments st) := by
  unfold Evaluator.visitCall
  cases st.env.function? name with
  | none => exact List.forall_mem_nil _
  | some f =>
    dsimp only
    split
    · exact List.forall_mem_nil _
    refine allIntact_append.mpr ⟨allIntact_all intact arguments start, ?_⟩
    refine (intact_all intact arguments start).visits fun values mid start held => ?_
    split
    · exact List.forall_mem_nil _
    · next frame made =>
      have held' := holds_callFrame held (fun _ _ found => by cases found) made
      exact (allIntact_block intact f.body (start.pushFrame held').intact).inside _

theorem allIntact_value (form : ExprForm) {st : State} (start : st.Intact) :
    AllIntact (ev.visitValue form st) := by
  have one (e : Expr) {st : State} (start : st.Intact) : AllIntact [.expr e st] :=
    start.visit _ _ (List.forall_mem_nil _)
  have named (array : String) (e : Expr) :
      AllIntact ((namedArray array st).onward fun _ st => [.expr e st]) :=
    (intact_namedArray array start).visits fun _ _ mid _ => one e mid
  cases form with
  | number | text | boolean | void | name | size => exact List.forall_mem_nil _
  | array items => exact allIntact_all intact items start
  | binary op left right =>
    cases op with
    | and =>
      refine start.visit _ _ ((intact_holds intact left start).visits fun b mid start _ => ?_)
      cases b with
      | true => exact one right start
      | false => exact List.forall_mem_nil _
    | or =>
      refine start.visit _ _ ((intact_holds intact left start).visits fun b mid start _ => ?_)
      cases b with
      | true => exact List.forall_mem_nil _
      | false => exact one right start
    | _ => exact allIntact_all intact [left, right] start
  | call function arguments => exact allIntact_call intact function arguments start
  | unary _ e | read e | toJson e | parseJson e | math _ e | textual _ e => exact one e start
  | index array e | append array e | remove array e => exact named array e

theorem allIntact_while (condition : Expr) (body : List Stmt) (rounds : ℕ) {st : State}
    (start : st.Intact) : AllIntact (ev.visitWhile condition body rounds st) := by
  induction rounds generalizing st with
  | zero => exact List.forall_mem_nil _
  | succ rounds ih =>
    refine start.visit _ _ ((intact_holds intact condition start).visits fun b mid start _ => ?_)
    cases b with
    | false => exact List.forall_mem_nil _
    | true =>
      refine allIntact_append.mpr ⟨allIntact_block intact body start, ?_⟩
      refine (intact_block intact body start).visits fun flow mid start _ => ?_
      cases flow with
      | normal => exact ih start
      | returned => exact List.forall_mem_nil _

theorem allIntact_rounds (counter : String) (last : Float) (body : List Stmt) (rounds : ℕ)
    (x : Float) {st : State} (start : st.Intact) :
    AllIntact (ev.visitRounds counter last body rounds x st) := by
  induction rounds generalizing st x with
  | zero => exact List.forall_mem_nil _
  | succ rounds ih =>
    unfold Evaluator.visitRounds
    split
    · refine (intact_setCounter counter x start).visits fun _ mid start _ => ?_
      refine allIntact_append.mpr ⟨allIntact_block intact body start, ?_⟩
      refine (intact_block intact body start).visits fun flow mid start _ => ?_
      cases flow with
      | normal => exact ih _ start
      | returned => exact List.forall_mem_nil _
    · exact List.forall_mem_nil _

theorem allIntact_loop (rounds : ℕ) (counter : String) (first last : Expr) (body : List Stmt)
    {st : State} (start : st.Intact) :
    AllIntact (ev.visitLoop rounds counter first last body st) := by
  have begun := intact_loopBound intact first "start" start
  refine start.visit _ _ (begun.visits fun x mid start _ => ?_)
  have known := intact_loopBound intact last "end" start
  refine start.visit _ _ (known.visits fun y mid start _ => ?_)
  refine (intact_setCounter counter x start).visits fun _ mid start _ => ?_
  exact (allIntact_rounds intact counter y body rounds x start).inside _

theorem allIntact_joined (ss : List Stmt) {st : State} (start : st.Intact) :
    AllIntact (ev.visitJoined ss st) := by
  induction ss generalizing st with
  | nil => exact List.forall_mem_nil _
  | cons s ss ih =>
    have first := intact.stmt s st start
    refine start.visit _ _ ?_
    cases hs : ev.stmt s st with
    | ok flow mid =>
      rw [hs] at first
      exact ih first.1.intact
    | failed f mid =>
      rw [hs] at first
      exact ih first.intact
    | broken => exact List.forall_mem_nil _

theorem allIntact_text (source : String) {st : State} (start : st.Intact) :
    AllIntact (ev.visitText source st) := by
  unfold Evaluator.visitText
  split
  · exact allIntact_block intact _ start
  · exact start.visit _ _ (List.forall_mem_nil _)

theorem allIntact_connect (host : Host) (name : String) {st : State} (start : st.Intact) :
    AllIntact (ev.visitConnect host name st) := by
  unfold Evaluator.visitConnect
  dsimp only
  split
  · exact List.forall_mem_nil _
  refine (intact_readFile host name _ start).visits fun source mid start _ => ?_
  exact (allIntact_text intact source (start.setIncludes _).intact).inside _

theorem allIntact_form (host : Host) (rounds : ℕ) (form : StmtForm) {st : State}
    (start : st.Intact) : AllIntact (ev.visitForm host rounds form st) := by
  have one (e : Expr) : AllIntact [.expr e st] := start.visit _ _ (List.forall_mem_nil _)
  cases form with
  | declare _ e | print _ e | value e => exact one e
  | assign name e =>
    simp only [Evaluator.visitForm]
    split
    · exact one e
    · exact List.forall_mem_nil _
  | branch condition thenBlock elseBlock =>
    refine start.visit _ _ ((intact_holds intact condition start).visits fun b _ start _ => ?_)
    cases b with
    | true => exact allIntact_block intact thenBlock start
    | false => exact allIntact_block intact (elseBlock.getD []) start
  | loop counter first last body =>
    exact allIntact_loop intact rounds counter first last body start
  | «while» condition body => exact allIntact_while intact condition body rounds start
  | «return» value =>
    cases value with
    | none => exact List.forall_mem_nil _
    | some e => exact one e
  | function | deleteVariable | deleteFunction => exact List.forall_mem_nil _
  | connect path => exact allIntact_connect intact host path start
  | async body => exact allIntact_joined intact body start

end

/-! ## The moments of a run -/

theorem intact_run {ev : Evaluator} (intact : ev.Intact) (n : Node) {st : State}
    (start : st.Intact) : (ev.run n st).Intact anyValue st := by
  cases n with
  | expr e => exact (intact.expr e st start).bind fun _ _ onward _ => onward.intact.pure trivial
  | stmt s => exact (intact.stmt s st start).bind fun _ _ onward _ => onward.intact.pure trivial
  | text source =>
    simp only [Evaluator.run]
    cases parse source with
    | ok => exact start.pure trivial
    | error => exact start.onward

theorem intact_source (host : Host) (fuel : ℕ) (source : Source) {st : State}
    (start : st.Intact) : (source.run host fuel st).Intact anyValue st := by
  have body (ss : List Stmt) {st : State} (start : st.Intact) : ((do
      let _ ← (evaluator host fuel).block ss : Exec Unit) st).Intact anyValue st :=
    (intact_block (intact_evaluator host fuel) ss start).bind fun _ _ onward _ =>
      onward.intact.pure trivial
  unfold Source.run runSource
  cases parse source.text with
  | error e => exact start.onward
  | ok ss =>
    cases source.origin with
    | none => exact body ss start
    | some name =>
      dsimp only
      rw [Exec.get_bind, Exec.withFile_apply]
      have entered := start.setIncludes (host.resolve st.includes name :: st.includes)
      refine (body ss entered.intact).change (fun last onward => ?_) fun _ _ _ => trivial
      exact (entered.trans onward).trans (onward.intact.setIncludes _)

theorem Outcome.Intact.ending {good : State → α → Prop} {o : Outcome α} {st : State}
    (intact : o.Intact good st) : ∀ m ∈ o.ending, m.state.Intact := by
  cases o with
  | ok => exact List.forall_mem_singleton.mpr intact.1.intact
  | failed => exact List.forall_mem_singleton.mpr (State.Onward.intact intact)
  | broken => exact List.forall_mem_nil _

theorem intact_moments {moments : Node → State → List Moment} {vs : List Visit}
    (visited : AllIntact vs)
    (each : ∀ n st, st.Intact → ∀ m ∈ moments n st, m.state.Intact) :
    ∀ m ∈ momentsOf moments vs, m.state.Intact := by
  intro m mem
  obtain ⟨v, hv, mapped⟩ := List.mem_flatMap.mp mem
  obtain ⟨inner, hinner, rfl⟩ := List.mem_map.mp mapped
  exact each v.node v.state (visited v hv) inner hinner

/-- At every moment of running a node the state is intact. -/
theorem intact_course (host : Host) (fuel : ℕ) (n : Node) {st : State} (start : st.Intact) :
    ∀ m ∈ course host fuel n st, m.state.Intact := by
  induction fuel generalizing n st with
  | zero =>
    have ending := (intact_run (intact_evaluator host 0) n start).ending
    exact List.forall_mem_cons.mpr ⟨start, ending⟩
  | succ fuel ih =>
    have ending := (intact_run (intact_evaluator host (fuel + 1)) n start).ending
    have visited : AllIntact (visits host (fuel + 1) n st) := by
      cases n with
      | expr e => exact allIntact_value (intact_evaluator host fuel) e.form start
      | stmt s => exact allIntact_form (intact_evaluator host fuel) host fuel s.form start
      | text source => exact List.forall_mem_nil _
    refine List.forall_mem_append.mpr ⟨List.forall_mem_cons.mpr ⟨start, ?_⟩, ending⟩
    exact intact_moments visited fun n st => ih n

theorem State.Intact.enter {st : State} (start : st.Intact) (host : Host) (source : Source) :
    st.Onward (source.enter host st) := by
  unfold Source.enter
  cases source.origin with
  | none => exact start.onward
  | some name => exact start.setIncludes _

/-- At every moment of a session the state is intact. -/
theorem intact_sessionCourse (host : Host) (fuel : ℕ) (sources : List Source) {st : State}
    (start : st.Intact) : ∀ m ∈ sessionCourse host fuel sources st, m.state.Intact := by
  induction sources generalizing st with
  | nil => exact List.forall_mem_nil _
  | cons source sources ih =>
    have ran := intact_source host fuel source start
    have visited : AllIntact (source.visits host fuel st) :=
      allIntact_text (intact_evaluator host fuel) source.text (start.enter host source).intact
    refine List.forall_mem_append.mpr ⟨?_, ?_⟩
    · refine List.forall_mem_append.mpr ⟨List.forall_mem_cons.mpr ⟨start, ?_⟩, ran.ending⟩
      exact intact_moments visited fun n st start => intact_course host fuel n start
    · cases hrun : source.run host fuel st with
      | ok v mid =>
        rw [hrun] at ran
        exact ih ran.1.intact
      | failed f mid =>
        rw [hrun] at ran
        exact ih (State.Onward.intact ran)
      | broken => exact List.forall_mem_nil _

end BraceScript
