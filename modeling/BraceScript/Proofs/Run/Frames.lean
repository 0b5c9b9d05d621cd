-- The frames of the calls in progress. A statement sees and changes no frame but
-- the innermost one, and leaves as many as there were; an expression leaves all
-- of them as they are. A call sees none of the frames that it is made from.
import BraceScript.Proofs.Run.Joined
import BraceScript.Proofs.Run.Local

namespace BraceScript

variable {α β : Type}

/-! ## Whole sources -/

/-- A value that is dropped. -/
theorem Outcome.state?_andThen_pure (o : Outcome α) (v : β) :
    (o.andThen fun _ => pure v).state? = o.state? := by
  cases o <;> rfl

/-- A step that does not touch the callers leaves them. -/
theorem Exec.Local.tail {x : Exec α} (hx : x.Local List.length) {st st' : State}
    (ends : st' ∈ (x st).state?) : st'.env.frames.tail = st.env.frames.tail := by
  have length := hx.keeps ends
  have same := hx.callers st.env.frames.tail st
  rw [show st.withCallers st.env.frames.tail = st by
    obtain ⟨⟨_, frames, _⟩, _, _, _⟩ := st
    cases frames <;> rfl] at same
  rw [same, Outcome.state?_change] at ends
  obtain ⟨⟨⟨_, frames, _⟩, _, _, _⟩, -, rfl⟩ := Option.map_eq_some_iff.1 ends
  cases frames with
  | nil => rw [List.eq_nil_of_length_eq_zero length.symm]; rfl
  | cons => rfl

theorem local_runSource (host : Host) (fuel : Nat) (source : String) (origin : Option String) :
    (runSource host fuel source origin).Local List.length := by
  unfold runSource
  split
  · refine ⟨fun _ _ => rfl, ?_⟩
    rintro st _ ⟨⟩
    rfl
  have body (ss : List Stmt) : Exec.Local List.length (do
      let _ ← (evaluator host fuel).block ss : Exec Unit) :=
    (local_block (local_evaluator host fuel) ss).bind fun _ => .pure _
  cases origin with
  | none => exact body _
  | some name => exact .get_bind (fun _ _ => rfl) fun _ => (body _).withFile _

/-! ## Calls -/

/-- A call once its arguments are there. -/
def enterFunction (ev : Evaluator) (f : Function) (values : List Value) : Exec Value := do
  let frame ← Exec.ofExcept (callFrame f.params values Scope.empty)
  match ← Exec.withFrame frame (ev.block f.body) with
  | .normal => return .void
  | .returned v => return v

theorem call_eq (ev : Evaluator) (name : String) (arguments : List Expr) (st : State) :
    call ev name arguments st =
      match st.env.function? name with
      | none => Exec.fail (.undefinedFunction name) st
      | some f =>
        if f.params.length < arguments.length then
          Exec.fail (.arity name f.params.length arguments.length) st
        else (ev.all arguments st).andThen (enterFunction ev f) := by
  unfold call
  rw [Exec.get_bind]
  cases st.env.function? name with
  | none => rfl
  | some f =>
    dsimp only
    split <;> rfl

theorem enterFunction_withFrames {ev : Evaluator} (parts : ev.Local) (f : Function)
    (values : List Value) (frames : List Scope) (st : State) :
    enterFunction ev f values (st.withFrames frames) =
      (enterFunction ev f values st).change (State.withFrames frames) := by
  unfold enterFunction
  cases callFrame f.params values Scope.empty with
  | error cause => rfl
  | ok frame =>
    have body := (local_block parts f.body).withFrame_withFrames frame frames st
    change (Exec.withFrame frame (ev.block f.body) (st.withFrames frames)).andThen _ =
      ((Exec.withFrame frame (ev.block f.body) st).andThen _).change _
    rw [body]
    cases Exec.withFrame frame (ev.block f.body) st with
    | ok flow last => cases flow <;> rfl
    | failed | broken => rfl

/-! ## The laws of frames -/

/-- The same files are being run and as many calls are in progress, and the frames of all calls
but the innermost one are the same. -/
structure State.Restores (st' st : State) : Prop where
  includes : st'.includes = st.includes
  depth : st'.env.depth = st.env.depth
  callers : st'.env.frames.tail = st.env.frames.tail

/-- However a statement ends, it leaves things as the law says. -/
theorem restores_runStmt (host : Host) (fuel : Nat) (s : Stmt) (st : State) :
    ∀ st' ∈ (runStmt host fuel s st).state?, st'.Restores st := by
  have parts := local_evaluator host fuel
  intro st' ends
  refine ⟨?_, (parts.stmt s).keeps ends, (parts.stmt s).tail ends⟩
  refine keepsIncludes_run host fuel (.stmt s) st st' ?_
  rwa [Evaluator.run, Exec.bind_eq_andThen, evaluator, Outcome.state?_andThen_pure]

/-- However an expression, a statement or a source ends, with a value, with a `return` or with a
fault: the files and the calls that were in progress before are so afterwards, and nothing has
changed in the frames of the callers. An expression has not even changed the innermost frame. -/
theorem frames_and_files_are_restored (host : Host) (fuel : Nat) (st : State) :
    (∀ e, ∀ st' ∈ (evalExpr host fuel e st).state?,
      st'.includes = st.includes ∧ st'.env.frames = st.env.frames) ∧
    (∀ s, ∀ st' ∈ (runStmt host fuel s st).state?, st'.Restores st) ∧
    ∀ source origin, ∀ st' ∈ (runSource host fuel source origin st).state?, st'.Restores st := by
  have parts := local_evaluator host fuel
  refine ⟨fun e st' ends => ⟨?_, (parts.expr e).keeps ends⟩,
    fun s => restores_runStmt host fuel s st, fun source origin st' ends => ⟨?_, ?_, ?_⟩⟩
  · refine keepsIncludes_run host fuel (.expr e) st st' ?_
    rwa [Evaluator.run, Exec.bind_eq_andThen, evaluator, Outcome.state?_andThen_pure]
  · exact keepsIncludes_runSource host fuel source origin st st' ends
  · exact (local_runSource host fuel source origin).keeps ends
  · exact (local_runSource host fuel source origin).tail ends

/-- The frames below the innermost one are never seen: whatever they are, a block comes to the
same end with the same fault or `return`, and leaves the same state but for those frames, which
stay as they are. So what a call does hangs on its arguments and not on any frame that it is made
from: with any other frames, or none, it does the same if its arguments do. -/
theorem callers_are_not_seen (host : Host) (fuel : Nat) :
    let ev := evaluator host fuel
    (∀ ss (st : State) frame callers callers',
      ev.block ss (st.withFrames (frame :: callers')) =
        (ev.block ss (st.withFrames (frame :: callers))).change (State.withCallers callers') ∧
      ∀ st' ∈ (ev.block ss (st.withFrames (frame :: callers))).state?,
        ∃ frame', st'.env.frames = frame' :: callers) ∧
    ∀ name arguments (st : State) frames,
      ev.all arguments (st.withFrames frames) =
        (ev.all arguments st).change (State.withFrames frames) →
      call ev name arguments (st.withFrames frames) =
        (call ev name arguments st).change (State.withFrames frames) := by
  intro ev
  have parts := local_evaluator host fuel
  refine ⟨fun ss st frame callers callers' => ⟨?_, fun st' ends => ?_⟩,
    fun name arguments st frames same => ?_⟩
  · exact (local_block parts ss).callers callers' (st.withFrames (frame :: callers))
  · have length := (local_block parts ss).keeps ends
    have tail := (local_block parts ss).tail ends
    obtain ⟨⟨_, inside, _⟩, _, _, _⟩ := st'
    cases inside with
    | nil => simp [State.withFrames] at length
    | cons frame' rest => exact ⟨frame', congrArg (frame' :: ·) tail⟩
  · rw [call_eq, call_eq, same,
      show (st.withFrames frames).env.function? name = st.env.function? name from rfl]
    split
    · rfl
    split
    · rfl
    cases ev.all arguments st with
    | ok values mid => exact enterFunction_withFrames parts _ values frames mid
    | failed | broken => rfl

/-- A function takes a name from the globals, also where its caller has a variable of that name. -/
example :
    let functions := "func f() \x7b return x \x7d func g() \x7b let x = 2 return f() \x7d"
    let source := "let x = 1 " ++ functions ++ " show g()"
    (runSource ⟨Files.inMemory, none⟩ 20 source none .initial).state?.map State.output =
      some #[⟨.info, "1"⟩] := by
  decide +kernel

end BraceScript
