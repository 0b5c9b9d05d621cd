-- The machine that programs run on: its state, and what a step of a run can
-- come to. A step that fails leaves the state as it was when it failed, so
-- whoever catches the fault goes on from there.
import BraceScript.Fault
import BraceScript.Files

namespace BraceScript

variable {α β : Type}

/-- A line that a program has printed. -/
structure Event where
  channel : Channel
  text : String
deriving DecidableEq

/-- The line with the name of its channel in front, if it is no plain one. -/
def Event.labelled (e : Event) : String :=
  match e.channel with
  | .info => e.text
  | .error => "error: " ++ e.text
  | .warning => "warning: " ++ e.text

/-- All that a run changes: the bindings, the arrays, the files that are
being run (the innermost first), and the lines printed so far. -/
structure State where
  env : Environment
  heap : Heap
  includes : List Path
  output : Array Event
deriving Inhabited

/-- The state before anything has run. -/
def State.initial : State := ⟨Environment.empty, Heap.empty, [], #[]⟩

/-- What a run is given: the files it can read, and where relative paths
start in the main source. -/
structure Host where
  files : Files
  base : Option Path

/-- Why a run was broken off before it came to an end. -/
inductive Break where
  | outOfFuel
  | unknownFile (path : Path)
deriving DecidableEq

/-- What a step comes to: a value, a fault, or a break. -/
inductive Outcome (α : Type) where
  | ok (value : α) (state : State)
  | failed (fault : Fault) (state : State)
  | broken (reason : Break)

/-- A step of a run. -/
def Exec (α : Type) : Type := State → Outcome α

namespace Exec

@[always_inline, inline]
def pure (value : α) : Exec α := fun st => .ok value st

@[always_inline, inline]
def bind (x : Exec α) (f : α → Exec β) : Exec β := fun st =>
  match x st with
  | .ok value st => f value st
  | .failed fault st => .failed fault st
  | .broken reason => .broken reason

instance : Monad Exec where
  pure := Exec.pure
  bind := Exec.bind

@[simp] theorem pure_apply (value : α) (st : State) :
    (Pure.pure value : Exec α) st = .ok value st := rfl

theorem bind_apply (x : Exec α) (f : α → Exec β) (st : State) :
    (x >>= f) st =
      match x st with
      | .ok value st => f value st
      | .failed fault st => .failed fault st
      | .broken reason => .broken reason := rfl

/-- Breaks the run off. -/
def stop (reason : Break) : Exec α := fun _ => .broken reason

/-- Fails for a cause, at a place that is still to be told. -/
def fail (cause : Fault.Cause) : Exec α := fun st => .failed { cause } st

/-- Fails for a cause at a given place. -/
def failAt (span : Span) (cause : Fault.Cause) : Exec α := fun st =>
  .failed { cause, span := some span } st

/-- A result that may be a cause of failure. -/
@[always_inline, inline]
def ofExcept (r : Except Fault.Cause α) : Exec α :=
  match r with
  | .ok value => Exec.pure value
  | .error cause => fail cause

@[always_inline, inline]
def get : Exec State := fun st => .ok st st

@[always_inline, inline]
def modify (f : State → State) : Exec Unit := fun st => .ok () (f st)

/-- Changes the bindings, or fails for the reason why they are not changed. -/
@[always_inline, inline]
def bindings (change : Environment → Except Refusal Environment)
    (cause : Refusal → Fault.Cause) : Exec Unit := fun st =>
  match change st.env with
  | .ok env => .ok () { st with env }
  | .error r => .failed { cause := cause r } st

/-- A step whose faults lie within a span. -/
@[always_inline, inline]
def within (span : Span) (x : Exec α) : Exec α := fun st =>
  match x st with
  | .failed fault st => .failed (fault.within span) st
  | outcome => outcome

/-- A step after which the state is changed once more, however it ended. -/
@[always_inline, inline]
def afterwards (x : Exec α) (f : State → State) : Exec α := fun st =>
  match x st with
  | .ok value st => .ok value (f st)
  | .failed fault st => .failed fault (f st)
  | .broken reason => .broken reason

/-- A step with one more frame, which is gone afterwards. -/
@[always_inline, inline]
def withFrame (frame : Scope) (x : Exec α) : Exec α := fun st =>
  afterwards x (fun st => { st with env := st.env.popFrame })
    { st with env := st.env.pushFrame frame }

/-- A step while one more file is being run. -/
@[always_inline, inline]
def withFile (file : Path) (x : Exec α) : Exec α := fun st =>
  afterwards x (fun st => { st with includes := st.includes.tail })
    { st with includes := file :: st.includes }

/-- A new array. -/
def newArray (items : List Value) : Exec Value := fun st =>
  let (handle, heap) := st.heap.alloc items
  .ok (.array handle) { st with heap }

/-- A line of output. -/
def print (channel : Channel) (value : Value) : Exec Unit :=
  modify fun st => { st with output := st.output.push ⟨channel, st.heap.shown value⟩ }

end Exec

/-! ## Places of files -/

/-- The directory that relative paths start from: that of the file being
run, else the one that the host names, else the working directory. -/
def Host.directory (host : Host) (includes : List Path) : Path :=
  ((includes.head?.bind Path.parent?).or host.base).getD host.files.workingDirectory

/-- The normal path of a file that a program names. -/
def Host.resolve (host : Host) (includes : List Path) (path : String) : Path :=
  (host.directory includes).resolve path

/-- The text of a file, or the fault that a program meets if there is none. -/
def Host.readFile (host : Host) (name : String) (path : Path) : Exec String :=
  match host.files.find? path with
  | some (.text text) => Exec.pure text
  | some (.unreadable _ reason) => Exec.fail (.unreadable name reason)
  | none => Exec.stop (.unknownFile path)

end BraceScript
