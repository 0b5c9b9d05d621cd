-- What a step comes to at a given state, and what becomes of it: the state
-- that is left may be changed, or the fault, or more may be done with the
-- value.
import BraceScript.Run.Machine

namespace BraceScript

variable {α β : Type}

/-! ## Changing outcomes -/

namespace Outcome

def void : Outcome α → Outcome Unit
  | .ok _ st => .ok () st
  | .failed f st => .failed f st
  | .broken reason => .broken reason

/-- What is done with the value, if there is one. -/
def andThen (o : Outcome α) (f : α → Exec β) : Outcome β :=
  match o with
  | .ok v st => f v st
  | .failed fault st => .failed fault st
  | .broken reason => .broken reason

/-- The state that is left, changed. -/
def change (f : State → State) : Outcome α → Outcome α
  | .ok v st => .ok v (f st)
  | .failed fault st => .failed fault (f st)
  | .broken reason => .broken reason

/-- The fault, changed. -/
def refault (g : Fault → Fault) : Outcome α → Outcome α
  | .failed fault st => .failed (g fault) st
  | o => o

/-- What was run before has failed, and that counts. -/
def joining (fault : Fault) : Outcome α → Outcome α
  | .ok _ st => .failed fault st
  | .failed _ st => .failed fault st
  | .broken reason => .broken reason

/-- The state that is left, unless the run was broken off. -/
def state? : Outcome α → Option State
  | .ok _ st => some st
  | .failed _ st => some st
  | .broken _ => none

/-- The fault that a step has come to. -/
def fault? : Outcome α → Option Fault
  | .failed f _ => some f
  | _ => none

theorem fault?_eq_some {o : Outcome α} {f : Fault} :
    o.fault? = some f ↔ ∃ st, o = .failed f st := by
  cases o <;> simp [fault?]

/-- The step has come to a value. -/
def isOk : Outcome α → Bool
  | .ok _ _ => true
  | _ => false

theorem exists_of_isOk {o : Outcome α} (h : o.isOk = true) : ∃ v st, o = .ok v st := by
  cases o with
  | ok v st => exact ⟨v, st, rfl⟩
  | failed | broken => cases h

@[simp] theorem state?_refault (g : Fault → Fault) (o : Outcome α) :
    (o.refault g).state? = o.state? := by
  cases o <;> rfl

@[simp] theorem state?_change (f : State → State) (o : Outcome α) :
    (o.change f).state? = o.state?.map f := by
  cases o <;> rfl

@[simp] theorem state?_joining (fault : Fault) (o : Outcome α) :
    (o.joining fault).state? = o.state? := by
  cases o <;> rfl

@[simp] theorem state?_void (o : Outcome α) : o.void.state? = o.state? := by
  cases o <;> rfl

theorem void_change (f : State → State) (o : Outcome α) : (o.change f).void = o.void.change f := by
  cases o <;> rfl

end Outcome

/-! ## Steps at a state -/

theorem Exec.within_apply (span : Span) (x : Exec α) (st : State) :
    Exec.within span x st = (x st).refault (·.within span) := by
  unfold Exec.within Outcome.refault
  cases x st <;> rfl

theorem Exec.withFrame_apply (frame : Scope) (x : Exec α) (st : State) :
    Exec.withFrame frame x st =
      (x { st with env := st.env.pushFrame frame }).change
        fun st => { st with env := st.env.popFrame } := rfl

theorem Exec.withFile_apply (file : Path) (x : Exec α) (st : State) :
    Exec.withFile file x st =
      (x { st with includes := file :: st.includes }).change
        fun st => { st with includes := st.includes.tail } := rfl

theorem Exec.bind_eq_andThen (x : Exec α) (f : α → Exec β) (st : State) :
    (x >>= f) st = (x st).andThen f := rfl

theorem Exec.get_bind (f : State → Exec α) (st : State) : (Exec.get >>= f) st = f st st := rfl

end BraceScript
