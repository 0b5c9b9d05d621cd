-- The bindings of a running program: global variables, the frames of the
-- calls in progress, and functions. A name is looked up in the innermost
-- frame and then among the globals; the frames between are never seen.
import BraceScript.Tree
import BraceScript.Value

namespace BraceScript

/-- The name that addresses every binding at once and names none. -/
def everyName : String := "all"

/-- What is left of a list of named things without those of one name. -/
theorem lookup_filter_bne {β : Type} (entries : List (String × β)) (name other : String) :
    (entries.filter fun entry => entry.1 != name).lookup other =
      if other = name then none else entries.lookup other := by
  induction entries with
  | nil => simp
  | cons entry rest ih => grind

/-! ## Scopes -/

/-- A value bound to a name, and whether it stays so for good. -/
structure Binding where
  value : Value
  immutable : Bool
deriving DecidableEq, Inhabited

/-- The bindings of one frame, or of the globals. No name is bound twice. -/
structure Scope where
  entries : List (String × Binding)
  distinct : (entries.map Prod.fst).Nodup
deriving DecidableEq

namespace Scope

def empty : Scope := ⟨[], List.nodup_nil⟩

instance : Inhabited Scope := ⟨empty⟩

/-- The binding of a name. -/
def find? (s : Scope) (name : String) : Option Binding := s.entries.lookup name

def contains (s : Scope) (name : String) : Bool := (s.find? name).isSome

/-- The value bound to a name. -/
def lookup (s : Scope) (name : String) : Option Value := (s.find? name).map Binding.value

/-- The name is bound for good. -/
def isImmutable (s : Scope) (name : String) : Bool :=
  match s.find? name with
  | some b => b.immutable
  | none => false

/-- The bindings of the other names. -/
def without (s : Scope) (name : String) : Scope where
  entries := s.entries.filter fun entry => entry.1 != name
  distinct := s.distinct.sublist (List.filter_sublist.map Prod.fst)

/-- Binds a name, whatever it was bound to. -/
def define (s : Scope) (name : String) (value : Value) (immutable : Bool) : Scope where
  entries := (name, ⟨value, immutable⟩) :: (s.without name).entries
  distinct := List.nodup_cons.2 ⟨by simp [without], (s.without name).distinct⟩

/-- The number of bindings. -/
def size (s : Scope) : Nat := s.entries.length

/-- The names bound for good. -/
def immutableNames (s : Scope) : List String :=
  (s.entries.filter fun entry => entry.2.immutable).map Prod.fst

/-- The least name bound for good, in the order of the alphabet. -/
def leastImmutable? (s : Scope) : Option String :=
  s.immutableNames.foldl (fun least name =>
    match least with
    | none => some name
    | some other => some (if name < other then name else other)) none

/-! ### What each change does to the look-up -/

theorem find?_without (s : Scope) (name other : String) :
    (s.without name).find? other = if other = name then none else s.find? other :=
  lookup_filter_bne s.entries name other

theorem find?_define (s : Scope) (name other : String) (value : Value) (immutable : Bool) :
    (s.define name value immutable).find? other =
      if other = name then some ⟨value, immutable⟩ else s.find? other := by
  by_cases h : other = name
  · subst h
    simp [define, find?]
  · have hb : (other == name) = false := by simpa using h
    have := find?_without s name other
    rw [if_neg h] at this
    rw [if_neg h, ← this]
    simp [define, find?, List.lookup_cons, hb]

end Scope

/-! ## Functions -/

/-- A function: its parameters and its body. -/
structure Function where
  name : String
  params : List String
  body : List Stmt

/-! ## Environments -/

/-- The globals, the frames of the calls in progress (the innermost first),
and the functions. -/
structure Environment where
  globals : Scope
  frames : List Scope
  functions : List (String × Function)
deriving Inhabited

/-- Why a binding is not made, changed or removed. -/
inductive Refusal where
  | immutable (name : String)
  | undefined
  | reserved
deriving DecidableEq

namespace Environment

def empty : Environment := ⟨Scope.empty, [], []⟩

/-- The number of calls in progress. -/
def depth (e : Environment) : Nat := e.frames.length

def pushFrame (e : Environment) (frame : Scope) : Environment :=
  { e with frames := frame :: e.frames }

def popFrame (e : Environment) : Environment := { e with frames := e.frames.tail }

/-- The scope that new variables go to. -/
def innermost (e : Environment) : Scope := e.frames.head?.getD e.globals

/-- The environment with another innermost scope. -/
def setInnermost (e : Environment) (s : Scope) : Environment :=
  match e.frames with
  | _ :: rest => { e with frames := s :: rest }
  | [] => { e with globals := s }

/-- The frame of the current call binds the name. -/
def frameContains (e : Environment) (name : String) : Bool :=
  match e.frames with
  | frame :: _ => frame.contains name
  | [] => false

/-- The scope that a name is taken from. -/
def scopeOf (e : Environment) (name : String) : Scope :=
  if e.frameContains name then e.innermost else e.globals

/-- The environment with the scope that a name is taken from replaced. -/
def setScopeOf (e : Environment) (name : String) (s : Scope) : Environment :=
  if e.frameContains name then e.setInnermost s else { e with globals := s }

/-- The value of a variable. -/
def lookup (e : Environment) (name : String) : Option Value := (e.scopeOf name).lookup name

/-! ### What changes of the scopes keep -/

@[simp] theorem depth_pushFrame (e : Environment) (frame : Scope) :
    (e.pushFrame frame).depth = e.depth + 1 := rfl

@[simp] theorem popFrame_pushFrame (e : Environment) (frame : Scope) :
    (e.pushFrame frame).popFrame = e := rfl

/-- A new frame hides all frames below it, but not the globals. -/
theorem lookup_pushFrame (e : Environment) (frame : Scope) (name : String) :
    (e.pushFrame frame).lookup name =
      if frame.contains name then frame.lookup name else e.globals.lookup name := by
  by_cases h : frame.contains name <;>
    simp [lookup, scopeOf, frameContains, innermost, pushFrame, h]

@[simp] theorem depth_setInnermost (e : Environment) (s : Scope) :
    (e.setInnermost s).depth = e.depth := by
  obtain ⟨_, frames, _⟩ := e
  cases frames <;> rfl

@[simp] theorem depth_setScopeOf (e : Environment) (name : String) (s : Scope) :
    (e.setScopeOf name s).depth = e.depth := by
  unfold setScopeOf
  split
  · exact depth_setInnermost e s
  · rfl

@[simp] theorem functions_setInnermost (e : Environment) (s : Scope) :
    (e.setInnermost s).functions = e.functions := by
  unfold setInnermost
  split <;> rfl

@[simp] theorem functions_setScopeOf (e : Environment) (name : String) (s : Scope) :
    (e.setScopeOf name s).functions = e.functions := by
  unfold setScopeOf
  split
  · exact functions_setInnermost e s
  · rfl

/-! ### Variables -/

/-- A new variable in the innermost scope. It may take the place of an older
one, but not of one that stays for good, there or among the globals. -/
def declare (e : Environment) (name : String) (value : Value) (immutable : Bool) :
    Except Refusal Environment :=
  if name = everyName then .error .reserved
  else if e.innermost.isImmutable name || e.globals.isImmutable name then
    .error (.immutable name)
  else .ok (e.setInnermost (e.innermost.define name value immutable))

/-- Whether a variable may be assigned to. -/
def checkAssignable (e : Environment) (name : String) : Except Refusal Unit :=
  let scope := e.scopeOf name
  if !scope.contains name then .error .undefined
  else if scope.isImmutable name then .error (.immutable name)
  else .ok ()

/-- Another value for a variable, in the scope that the name is taken from. -/
def assign (e : Environment) (name : String) (value : Value) : Except Refusal Environment :=
  match e.checkAssignable name with
  | .error r => .error r
  | .ok () => .ok (e.setScopeOf name ((e.scopeOf name).define name value false))

/-- Binds a global, unless one of that name stays for good. -/
def setGlobal (e : Environment) (name : String) (value : Value) : Except Refusal Environment :=
  if e.globals.isImmutable name then .error (.immutable name)
  else .ok { e with globals := e.globals.define name value false }

/-- Removes a global, whatever it is. -/
def unsetGlobal (e : Environment) (name : String) : Environment :=
  { e with globals := e.globals.without name }

/-- Removes a variable from the scope that its name is taken from. The name
of all bindings empties the innermost scope, unless something in it stays
for good. -/
def deleteVariable (e : Environment) (name : String) : Except Refusal Environment :=
  if name = everyName then
    match e.innermost.leastImmutable? with
    | some name => .error (.immutable name)
    | none => .ok (e.setInnermost Scope.empty)
  else
    match e.checkAssignable name with
    | .error r => .error r
    | .ok () => .ok (e.setScopeOf name ((e.scopeOf name).without name))

/-! ### Functions -/

/-- The function of a name. -/
def function? (e : Environment) (name : String) : Option Function := e.functions.lookup name

/-- A new function, which takes the place of an older one of its name. -/
def defineFunction (e : Environment) (f : Function) : Except Refusal Environment :=
  if f.name = everyName then .error .reserved
  else .ok { e with
    functions := (f.name, f) :: e.functions.filter fun entry => entry.1 != f.name }

/-- Removes a function, or all of them. -/
def deleteFunction (e : Environment) (name : String) : Except Refusal Environment :=
  if name = everyName then .ok { e with functions := [] }
  else if (e.function? name).isSome then
    .ok { e with functions := e.functions.filter fun entry => entry.1 != name }
  else .error .undefined

end Environment

end BraceScript
