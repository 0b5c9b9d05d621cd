-- The operations on the bindings. Each of them is refused and changes nothing,
-- or it changes the bindings of one name in one scope, or it empties one scope.
-- What is bound for good stays as it is, and variables and functions are apart.
import BraceScript.Proofs.Run.Outcomes

namespace BraceScript

/-! ## The least name bound for good -/

namespace Scope

variable {s s' : Scope} {name other : String} {b : Binding}

theorem find?_eq_some_iff : s.find? name = some b ↔ (name, b) ∈ s.entries := by
  obtain ⟨entries, distinct⟩ := s
  unfold find?
  induction entries with
  | nil => simp
  | cons entry rest ih =>
    obtain ⟨key, bound⟩ := entry
    rw [List.map_cons, List.nodup_cons] at distinct
    have tail := ih distinct.2
    by_cases same : name = key
    · subst same
      have absent : (name, b) ∉ rest := fun h => distinct.1 (List.mem_map.2 ⟨_, h, rfl⟩)
      simp [absent, eq_comm]
    · have differ : (name == key) = false := by simpa using same
      simpa [List.lookup_cons, differ, same] using tail

theorem isImmutable_iff : s.isImmutable name = true ↔ ∃ b, s.find? name = some b ∧ b.immutable := by
  unfold isImmutable
  split
  · next b hb => simp [hb]
  · next none => simp [none]

theorem mem_immutableNames : name ∈ s.immutableNames ↔ s.isImmutable name = true := by
  rw [isImmutable_iff]
  simp [immutableNames, find?_eq_some_iff, and_comm]

/-- The lesser one of a name and another one, if there is another one. -/
def lesser : Option String → String → Option String
  | none, name => some name
  | some other, name => some (if name < other then name else other)

theorem leastImmutable?_eq (s : Scope) :
    s.leastImmutable? = s.immutableNames.foldl lesser none := by
  unfold leastImmutable?
  congr 1
  funext least name
  cases least <;> rfl

/-- The name is one of these, and none of them is less. -/
def IsLeast (names : List String) (name : String) : Prop :=
  name ∈ names ∧ ∀ other ∈ names, ¬ other < name

theorem IsLeast.eq {names : List String} (h : IsLeast names name) (h' : IsLeast names other) :
    name = other :=
  String.le_antisymm (String.not_lt.1 (h.2 _ h'.1)) (String.not_lt.1 (h'.2 _ h.1))

theorem exists_isLeast_foldl (first : String) (names : List String) :
    ∃ least, names.foldl lesser (some first) = some least ∧ IsLeast (first :: names) least := by
  induction names generalizing first with
  | nil =>
    refine ⟨first, rfl, List.mem_singleton.2 rfl, fun other hother => ?_⟩
    rw [List.mem_singleton.1 hother]
    exact String.lt_irrefl first
  | cons name names ih =>
    obtain ⟨least, fold, among, none⟩ := ih (if name < first then name else first)
    refine ⟨least, fold, ?_, fun other hother => ?_⟩
    · split at among <;> grind
    · have le : least ≤ if name < first then name else first := String.not_lt.1 (none _ (by simp))
      have both : least ≤ first ∧ least ≤ name := by
        split at le
        · next lt => exact ⟨String.le_trans le (String.not_lt.1 (String.lt_asymm lt)), le⟩
        · next ge => exact ⟨le, String.le_trans le (String.not_lt.1 ge)⟩
      rcases List.mem_cons.1 hother with rfl | hother
      · exact String.not_lt.2 both.1
      rcases List.mem_cons.1 hother with rfl | hother
      · exact String.not_lt.2 both.2
      · exact none other (List.mem_cons_of_mem _ hother)

/-- Either nothing is bound for good, or the least such name is found. -/
theorem leastImmutable?_cases (s : Scope) :
    (s.leastImmutable? = none ∧ ∀ name, s.isImmutable name = false) ∨
      ∃ least, s.leastImmutable? = some least ∧ IsLeast s.immutableNames least := by
  rw [leastImmutable?_eq]
  cases names : s.immutableNames with
  | nil =>
    refine Or.inl ⟨rfl, fun name => Bool.eq_false_iff.2 fun h => ?_⟩
    rw [← mem_immutableNames, names] at h
    cases h
  | cons first rest => exact Or.inr (exists_isLeast_foldl first rest)

/-- Scopes with the same bindings have the same least name bound for good. -/
theorem leastImmutable?_congr (same : ∀ name, s.find? name = s'.find? name) :
    s.leastImmutable? = s'.leastImmutable? := by
  have immutable (name : String) : s.isImmutable name = s'.isImmutable name := by
    unfold isImmutable
    rw [same]
  have names (name : String) : name ∈ s.immutableNames ↔ name ∈ s'.immutableNames := by
    rw [mem_immutableNames, mem_immutableNames, immutable]
  obtain ⟨none, mutable⟩ | ⟨least, found, lowest⟩ := s.leastImmutable?_cases <;>
    obtain ⟨none', mutable'⟩ | ⟨least', found', lowest'⟩ := s'.leastImmutable?_cases
  · rw [none, none']
  · have := mem_immutableNames.1 lowest'.1
    simp [← immutable, mutable] at this
  · have := mem_immutableNames.1 lowest.1
    simp [immutable, mutable'] at this
  · have lowest'' : IsLeast s.immutableNames least' :=
      ⟨(names _).2 lowest'.1, fun other hother => lowest'.2 other ((names other).1 hother)⟩
    rw [found, found', lowest.eq lowest'']

end Scope

/-! ## Where variables are bound -/

/-- The globals, or a frame, counted from the innermost one. -/
inductive Level where
  | globals
  | frame (depth : Nat)
deriving DecidableEq

namespace Environment

variable {level : Level} {name : String} {s : Scope}

/-- The scope at a level, if there are so many calls in progress. -/
def scopeAt (e : Environment) : Level → Option Scope
  | .globals => some e.globals
  | .frame depth => e.frames[depth]?

/-- What a name is bound to at a level. -/
def bindingAt (e : Environment) (level : Level) (name : String) : Option Binding :=
  (e.scopeAt level).bind (·.find? name)

/-- The level that new variables go to. -/
def innermostLevel (e : Environment) : Level :=
  if e.frames.isEmpty then .globals else .frame 0

/-- The level that a name is taken from: the frame of the current call if the name is bound
there, else the globals. -/
def levelOf (e : Environment) (name : String) : Level :=
  if (e.bindingAt (.frame 0) name).isSome then .frame 0 else .globals

theorem frameContains_eq (e : Environment) (name : String) :
    e.frameContains name = (e.bindingAt (.frame 0) name).isSome := by
  obtain ⟨_, frames, _⟩ := e
  cases frames <;> rfl

theorem scopeAt_innermostLevel (e : Environment) :
    e.scopeAt e.innermostLevel = some e.innermost := by
  obtain ⟨_, frames, _⟩ := e
  cases frames <;> rfl

theorem scopeAt_setInnermost (e : Environment) (s : Scope) (level : Level) :
    (e.setInnermost s).scopeAt level =
      if e.innermostLevel = level then some s else e.scopeAt level := by
  obtain ⟨_, frames, _⟩ := e
  cases frames <;> rcases level with _ | _ | depth <;> rfl

theorem innermostLevel_of_frameContains {e : Environment} (h : e.frameContains name = true) :
    e.innermostLevel = .frame 0 := by
  obtain ⟨_, frames, _⟩ := e
  cases frames with
  | nil => cases h
  | cons => rfl

theorem scopeAt_levelOf (e : Environment) (name : String) :
    e.scopeAt (e.levelOf name) = some (e.scopeOf name) := by
  unfold levelOf scopeOf
  rw [← frameContains_eq]
  split
  · next h => rw [← innermostLevel_of_frameContains h, scopeAt_innermostLevel]
  · rfl

theorem scopeAt_setScopeOf (e : Environment) (name : String) (s : Scope) (level : Level) :
    (e.setScopeOf name s).scopeAt level =
      if e.levelOf name = level then some s else e.scopeAt level := by
  unfold levelOf setScopeOf
  rw [← frameContains_eq]
  split
  · next h => rw [scopeAt_setInnermost, innermostLevel_of_frameContains h]
  · rcases level with _ | depth <;> rfl

end Environment

/-! ## Operations -/

/-- An operation on the bindings. -/
inductive Operation where
  | declare (name : String) (value : Value) (immutable : Bool)
  | check (name : String)
  | assign (name : String) (value : Value)
  | setGlobal (name : String) (value : Value)
  | deleteVariable (name : String)
  | defineFunction (f : Function)
  | deleteFunction (name : String)

namespace Operation

/-- The bindings afterwards. -/
def apply : Operation → Environment → Except Refusal Environment
  | .declare name value immutable, e => e.declare name value immutable
  | .check name, e => (e.checkAssignable name).map fun _ => e
  | .assign name value, e => e.assign name value
  | .setGlobal name value, e => e.setGlobal name value
  | .deleteVariable name, e => e.deleteVariable name
  | .defineFunction f, e => e.defineFunction f
  | .deleteFunction name, e => e.deleteFunction name

def name : Operation → String
  | .declare name _ _ | .check name | .assign name _ | .setGlobal name _ | .deleteVariable name
  | .deleteFunction name => name
  | .defineFunction f => f.name

/-- The operation is about functions, and not about variables. -/
def onFunctions : Operation → Bool
  | .defineFunction _ | .deleteFunction _ => true
  | _ => false

/-- The fault that a program meets if the operation is refused. -/
def cause : Operation → Refusal → Fault.Cause
  | .defineFunction _ => fun _ => .reserved .function
  | .deleteFunction name => fun _ => .undefinedFunction name
  | op => Fault.Cause.ofRefusal op.name

/-- The operation as a step of a run. -/
def run (op : Operation) : Exec Unit := Exec.bindings op.apply op.cause

/-- The operation deletes all that it can. -/
def isBulk : Operation → Bool
  | .deleteVariable name | .deleteFunction name => name == everyName
  | _ => false

/-- The bindings that the operation is about: those of the given name, or all of them. -/
def concerns (op : Operation) (x : String) : Bool := x == op.name || op.isBulk

/-- The level at which the operation changes variables, if it does. -/
def target (e : Environment) : Operation → Option Level
  | .declare .. => some e.innermostLevel
  | .assign name _ => some (e.levelOf name)
  | .setGlobal .. => some .globals
  | .deleteVariable name =>
    some (if name = everyName then e.innermostLevel else e.levelOf name)
  | _ => none

/-- What the operation binds variables to. -/
def binding? : Operation → Option Binding
  | .declare _ value immutable => some ⟨value, immutable⟩
  | .assign _ value | .setGlobal _ value => some ⟨value, false⟩
  | _ => none

/-- The function that the operation defines. -/
def function? : Operation → Option Function
  | .defineFunction f => some f
  | _ => none

/-- All that an operation changes. The bindings that it is about are changed at one level, and
among them is none that stays for good. -/
structure Changes (op : Operation) (e e' : Environment) : Prop where
  depth : e'.depth = e.depth
  scopes : ∀ level, op.target e ≠ some level → e'.scopeAt level = e.scopeAt level
  bindings : ∀ level x, e'.bindingAt level x =
    if op.target e = some level ∧ op.concerns x then op.binding? else e.bindingAt level x
  immutable : ∀ level x b, e.bindingAt level x = some b → b.immutable = true →
    e'.bindingAt level x = some b
  functions : ∀ x, e'.function? x =
    if op.onFunctions ∧ op.concerns x then op.function? else e.function? x
  variablesApart : op.onFunctions = true → e'.globals = e.globals ∧ e'.frames = e.frames
  functionsApart : op.onFunctions = false → e'.functions = e.functions

variable {op : Operation} {e e' : Environment}

/-- Another scope at one level, with other bindings only where the operation is about them and
where the old ones are not for good. -/
theorem Changes.of_scope {level : Level} {s s' : Scope} (onVariables : op.onFunctions = false)
    (functions : e'.functions = e.functions) (depth : e'.depth = e.depth)
    (target : op.target e = some level) (before : e.scopeAt level = some s)
    (after : ∀ other, e'.scopeAt other = if level = other then some s' else e.scopeAt other)
    (names : ∀ x, s'.find? x = if op.concerns x then op.binding? else s.find? x)
    (mutable : ∀ x, op.concerns x = true → s.isImmutable x = false) : op.Changes e e' := by
  have bindings (other : Level) (x : String) : e'.bindingAt other x =
      if op.target e = some other ∧ op.concerns x then op.binding? else e.bindingAt other x := by
    unfold Environment.bindingAt
    by_cases here : level = other
    · subst here
      simp [after, before, names, target]
    · simp [after, target, here]
  refine ⟨depth, fun other elsewhere => ?_, bindings, fun other x b found immutable => ?_, ?_, ?_,
    fun _ => functions⟩
  · rw [after, if_neg fun here => elsewhere (target.trans (congrArg some here))]
  · rw [bindings, if_neg, found]
    rintro ⟨here, concerned⟩
    rw [target, Option.some.injEq] at here
    subst here
    rw [Environment.bindingAt, before] at found
    have fixed : s.isImmutable x = true := Scope.isImmutable_iff.2 ⟨b, found, immutable⟩
    rw [mutable x concerned] at fixed
    cases fixed
  · simp [onVariables, Environment.function?, functions]
  · simp [onVariables]

/-- An operation on functions leaves the variables alone. -/
theorem Changes.of_functions {functions : List (String × Function)}
    (apart : op.onFunctions = true) (target : op.target e = none)
    (names : ∀ x, functions.lookup x = if op.concerns x then op.function? else e.function? x) :
    op.Changes e { e with functions } := by
  refine ⟨rfl, fun level _ => by cases level <;> rfl, fun level x => ?_,
    fun level x b found _ => ?_, fun x => ?_, fun _ => ⟨rfl, rfl⟩, by simp [apart]⟩
  · rw [target]
    cases level <;> simp [Environment.bindingAt, Environment.scopeAt]
  · rw [← found]
    cases level <;> rfl
  · simpa [apart, Environment.function?] using names x

/-- A name that may be assigned to is bound, and not for good. -/
theorem isImmutable_of_checkAssignable {name : String} (h : e.checkAssignable name = .ok ()) :
    (e.scopeOf name).isImmutable name = false := by
  unfold Environment.checkAssignable at h
  dsimp only at h
  split at h
  · cases h
  split at h
  · cases h
  · next mutable => simpa using mutable

theorem changes_declare {name : String} {value : Value} {immutable : Bool}
    (h : e.declare name value immutable = .ok e') :
    (Operation.declare name value immutable).Changes e e' := by
  unfold Environment.declare at h
  split at h
  · cases h
  split at h
  · cases h
  · next mutable =>
    cases h
    refine .of_scope rfl (by simp) (by simp) rfl e.scopeAt_innermostLevel
      (e.scopeAt_setInnermost _) (fun x => ?_) (fun x concerned => ?_)
    · simp [concerns, isBulk, Operation.name, binding?, Scope.find?_define]
    · simp only [concerns, isBulk, Operation.name, Bool.or_false, beq_iff_eq] at concerned
      subst concerned
      simp only [Bool.or_eq_true, not_or, Bool.not_eq_true] at mutable
      exact mutable.1

theorem changes_assign {name : String} {value : Value} (h : e.assign name value = .ok e') :
    (Operation.assign name value).Changes e e' := by
  unfold Environment.assign at h
  split at h
  · cases h
  · next assignable =>
    cases h
    refine .of_scope rfl (by simp) (by simp) rfl (e.scopeAt_levelOf name)
      (e.scopeAt_setScopeOf name _) (fun x => ?_) (fun x concerned => ?_)
    · simp [concerns, isBulk, Operation.name, binding?, Scope.find?_define]
    · simp only [concerns, isBulk, Operation.name, Bool.or_false, beq_iff_eq] at concerned
      subst concerned
      exact isImmutable_of_checkAssignable assignable

theorem changes_setGlobal {name : String} {value : Value} (h : e.setGlobal name value = .ok e') :
    (Operation.setGlobal name value).Changes e e' := by
  unfold Environment.setGlobal at h
  split at h
  · cases h
  · next mutable =>
    cases h
    have after (level : Level) : Environment.scopeAt
        { e with globals := e.globals.define name value false } level =
          if .globals = level then some (e.globals.define name value false)
          else e.scopeAt level := by
      cases level <;> rfl
    refine .of_scope rfl rfl rfl rfl rfl after (fun x => ?_) (fun x concerned => ?_)
    · simp [concerns, isBulk, Operation.name, binding?, Scope.find?_define]
    · simp only [concerns, isBulk, Operation.name, Bool.or_false, beq_iff_eq] at concerned
      subst concerned
      simpa using mutable

theorem changes_deleteVariable {name : String} (h : e.deleteVariable name = .ok e') :
    (Operation.deleteVariable name).Changes e e' := by
  unfold Environment.deleteVariable at h
  split at h
  · next bulk =>
    obtain ⟨none, mutable⟩ | ⟨least, found, -⟩ := e.innermost.leastImmutable?_cases
    · rw [none] at h
      cases h
      refine .of_scope rfl (by simp) (by simp) (by simp [target, bulk])
        e.scopeAt_innermostLevel (e.scopeAt_setInnermost _) (fun x => ?_) (fun x _ => mutable x)
      simp [concerns, isBulk, bulk, binding?, Scope.empty, Scope.find?]
    · rw [found] at h
      cases h
  · next single =>
    split at h
    · cases h
    · next assignable =>
      cases h
      refine .of_scope rfl (by simp) (by simp) (by simp [target, single])
        (e.scopeAt_levelOf name) (e.scopeAt_setScopeOf name _) (fun x => ?_)
        (fun x concerned => ?_)
      · simp [concerns, isBulk, single, Operation.name, binding?, Scope.find?_without]
      · simp only [concerns, isBulk, Operation.name, beq_eq_false_iff_ne.2 single, Bool.or_false,
          beq_iff_eq] at concerned
        subst concerned
        exact isImmutable_of_checkAssignable assignable

theorem changes_defineFunction {f : Function} (h : e.defineFunction f = .ok e') :
    (Operation.defineFunction f).Changes e e' := by
  unfold Environment.defineFunction at h
  split at h
  · cases h
  · cases h
    refine .of_functions rfl rfl fun x => ?_
    by_cases same : x = f.name
    · simp [concerns, isBulk, Operation.name, Operation.function?, same]
    · have differ : (x == f.name) = false := by simpa using same
      simp [concerns, isBulk, Operation.name, Environment.function?, List.lookup_cons, differ,
        lookup_filter_bne, same]

theorem changes_deleteFunction {name : String} (h : e.deleteFunction name = .ok e') :
    (Operation.deleteFunction name).Changes e e' := by
  unfold Environment.deleteFunction at h
  split at h
  · next bulk =>
    cases h
    exact .of_functions rfl rfl fun x => by
      simp [concerns, isBulk, bulk, Operation.function?]
  · next single =>
    split at h
    · cases h
      refine .of_functions rfl rfl fun x => ?_
      simp [concerns, isBulk, single, Operation.name, Operation.function?, Environment.function?,
        lookup_filter_bne]
    · cases h

/-- An operation that is not refused changes only what it is about. -/
theorem changes_of_apply (h : op.apply e = .ok e') : op.Changes e e' := by
  cases op with
  | declare => exact changes_declare h
  | check name =>
    have same : e' = e := by
      simp only [apply] at h
      cases hc : e.checkAssignable name <;> rw [hc] at h <;> cases h
      rfl
    subst same
    exact ⟨rfl, fun _ _ => rfl, by simp [target], fun _ _ _ found _ => found,
      by simp [onFunctions], fun _ => ⟨rfl, rfl⟩, fun _ => rfl⟩
  | assign => exact changes_assign h
  | setGlobal => exact changes_setGlobal h
  | deleteVariable => exact changes_deleteVariable h
  | defineFunction => exact changes_defineFunction h
  | deleteFunction => exact changes_deleteFunction h

/-! ### Refusals -/

/-- The reason for a refusal is there. -/
def Justifies (e : Environment) (op : Operation) : Refusal → Prop
  | .reserved => op.name = everyName
  | .immutable name => op.concerns name = true ∧ ∃ level ∈ [e.innermostLevel, .globals],
    ∃ b, e.bindingAt level name = some b ∧ b.immutable = true
  | .undefined =>
    if op.onFunctions then e.function? op.name = none
    else ∀ level ∈ [e.innermostLevel, .globals], e.bindingAt level op.name = none

theorem exists_binding {level : Level} {s : Scope} {name : String} (at_ : e.scopeAt level = some s)
    (immutable : s.isImmutable name = true) :
    ∃ b, e.bindingAt level name = some b ∧ b.immutable = true := by
  unfold Environment.bindingAt
  rw [at_]
  exact Scope.isImmutable_iff.1 immutable

theorem mem_levelOf (e : Environment) (name : String) :
    e.levelOf name ∈ [e.innermostLevel, .globals] := by
  unfold Environment.levelOf
  rw [← Environment.frameContains_eq]
  split
  · next h => simp [Environment.innermostLevel_of_frameContains h]
  · simp

/-- What may not be assigned to is bound for good, or not at all. -/
theorem justifies_of_checkAssignable {r : Refusal} (onVariables : op.onFunctions = false)
    (h : e.checkAssignable op.name = .error r) : op.Justifies e r := by
  unfold Environment.checkAssignable at h
  dsimp only at h
  split at h
  · next free =>
    cases h
    have none : e.bindingAt (e.levelOf op.name) op.name = none := by
      unfold Environment.bindingAt
      rw [e.scopeAt_levelOf]
      simpa [Scope.contains] using free
    unfold Environment.levelOf at none
    split at none
    · next bound =>
      rw [none] at bound
      cases bound
    · next outside =>
      simp only [Justifies, onVariables, Bool.false_eq_true, if_false, List.mem_cons,
        List.not_mem_nil, or_false, forall_eq_or_imp, forall_eq]
      refine ⟨?_, none⟩
      unfold Environment.innermostLevel
      split
      · exact none
      · simpa using outside
  split at h
  · next immutable =>
    cases h
    exact ⟨by simp [concerns], _, mem_levelOf e op.name,
      exists_binding (e.scopeAt_levelOf op.name) immutable⟩
  · cases h

/-- An operation is refused only for a reason. -/
theorem justifies_of_apply {r : Refusal} (h : op.apply e = .error r) : op.Justifies e r := by
  cases op with
  | declare name value immutable =>
    simp only [apply, Environment.declare] at h
    split at h
    · next reserved =>
      cases h
      exact reserved
    split at h
    · next fixed =>
      cases h
      refine ⟨by simp [concerns, Operation.name], ?_⟩
      rcases Bool.or_eq_true_iff.1 fixed with fixed | fixed
      · exact ⟨_, by simp, exists_binding e.scopeAt_innermostLevel fixed⟩
      · exact ⟨.globals, by simp, exists_binding (s := e.globals) rfl fixed⟩
    · cases h
  | check name =>
    refine justifies_of_checkAssignable rfl ?_
    simp only [apply] at h
    cases hc : e.checkAssignable name <;> rw [hc] at h <;> cases h
    exact hc
  | assign name value =>
    refine justifies_of_checkAssignable rfl ?_
    simp only [apply, Environment.assign] at h
    split at h <;> cases h
    assumption
  | setGlobal name value =>
    simp only [apply, Environment.setGlobal] at h
    split at h
    · next fixed =>
      cases h
      exact ⟨by simp [concerns, Operation.name], .globals, by simp,
        exists_binding (s := e.globals) rfl fixed⟩
    · cases h
  | deleteVariable name =>
    simp only [apply, Environment.deleteVariable] at h
    split at h
    · next bulk =>
      obtain ⟨none, -⟩ | ⟨least, found, among, -⟩ := e.innermost.leastImmutable?_cases
      · rw [none] at h
        cases h
      · rw [found] at h
        cases h
        exact ⟨by simp [concerns, isBulk, bulk], _, by simp,
          exists_binding e.scopeAt_innermostLevel (Scope.mem_immutableNames.1 among)⟩
    · refine justifies_of_checkAssignable rfl ?_
      split at h <;> cases h
      assumption
  | defineFunction f =>
    simp only [apply, Environment.defineFunction] at h
    split at h
    · next reserved =>
      cases h
      exact reserved
    · cases h
  | deleteFunction name =>
    simp only [apply, Environment.deleteFunction] at h
    split at h
    · cases h
    split at h
    · cases h
    · next free =>
      cases h
      simpa [Justifies, onFunctions, Operation.name] using free

end Operation

/-! ## The law of the bindings -/

/-- To delete all variables is refused for the least one in the innermost scope that is bound
for good, or else it leaves none there. -/
theorem Environment.deleteVariable_everyName (e : Environment) :
    match e.deleteVariable everyName with
    | .ok e' => ∀ x, e'.bindingAt e.innermostLevel x = none
    | .error r => ∃ least, r = .immutable least ∧
      (∃ b, e.bindingAt e.innermostLevel least = some b ∧ b.immutable = true) ∧
      ∀ x b, e.bindingAt e.innermostLevel x = some b → b.immutable = true → ¬ x < least := by
  unfold Environment.deleteVariable
  rw [if_pos rfl]
  obtain ⟨none, -⟩ | ⟨least, found, among, lowest⟩ := e.innermost.leastImmutable?_cases
  · rw [none]
    intro x
    simp [bindingAt, scopeAt_setInnermost, Scope.empty, Scope.find?]
  · rw [found]
    refine ⟨least, rfl, Operation.exists_binding e.scopeAt_innermostLevel
      (Scope.mem_immutableNames.1 among), fun x b bound immutable => lowest x ?_⟩
    rw [bindingAt, scopeAt_innermostLevel] at bound
    exact Scope.mem_immutableNames.2 (Scope.isImmutable_iff.2 ⟨b, bound, immutable⟩)

theorem Environment.deleteVariable_everyName_congr {e e' : Environment}
    (same : ∀ x, e'.bindingAt e'.innermostLevel x = e.bindingAt e.innermostLevel x) (r : Refusal) :
    e'.deleteVariable everyName = .error r ↔ e.deleteVariable everyName = .error r := by
  have least : e'.innermost.leastImmutable? = e.innermost.leastImmutable? := by
    refine Scope.leastImmutable?_congr fun x => ?_
    have := same x
    simpa only [bindingAt, scopeAt_innermostLevel, Option.bind_some] using this
  unfold deleteVariable
  rw [if_pos rfl, if_pos rfl, least]
  cases e.innermost.leastImmutable? <;> simp

/-- In any state, an operation on the bindings is refused for a reason that is there, and leaves
the whole state as it was; or it changes the bindings that it is about, at one level, and nothing
else. A check comes to what an assignment of any value comes to. To delete all variables empties
the innermost scope, or it is refused for the least name there that is bound for good, in
whatever order the names were bound. -/
theorem bindings_change_at_one_level_or_not_at_all (st : State) :
    (∀ op : Operation,
      (∃ r, op.apply st.env = .error r ∧ op.Justifies st.env r ∧
        op.run st = .failed { cause := op.cause r } st) ∨
      ∃ e', op.apply st.env = .ok e' ∧ op.Changes st.env e' ∧
        op.run st = .ok () { st with env := e' }) ∧
    (∀ name value,
      (st.env.assign name value).map (fun _ => ()) = st.env.checkAssignable name) ∧
    (match st.env.deleteVariable everyName with
      | .ok e' => ∀ x, e'.bindingAt st.env.innermostLevel x = none
      | .error r => ∃ least, r = .immutable least ∧
        (∃ b, st.env.bindingAt st.env.innermostLevel least = some b ∧ b.immutable = true) ∧
        ∀ x b, st.env.bindingAt st.env.innermostLevel x = some b → b.immutable = true →
          ¬ x < least) ∧
    ∀ e : Environment,
      (∀ x, e.bindingAt e.innermostLevel x = st.env.bindingAt st.env.innermostLevel x) →
      ∀ r, e.deleteVariable everyName = .error r ↔ st.env.deleteVariable everyName = .error r := by
  refine ⟨fun op => ?_, fun name value => ?_, st.env.deleteVariable_everyName,
    fun e same => Environment.deleteVariable_everyName_congr same⟩
  · cases h : op.apply st.env with
    | error r =>
      exact Or.inl ⟨r, rfl, Operation.justifies_of_apply h,
        by simp only [Operation.run, Exec.bindings, h]⟩
    | ok e' =>
      exact Or.inr ⟨e', rfl, Operation.changes_of_apply h,
        by simp only [Operation.run, Exec.bindings, h]⟩
  · unfold Environment.assign
    split
    · next refused => rw [refused]; rfl
    · next assignable => rw [assignable]; rfl

/-- Two constants of a call, bound in one order and in the other: to delete all variables is
refused for the same one. -/
theorem the_lesser_constant_is_named :
    let scope := (Scope.empty.define "b" (.number 1) true).define "a" (.number 2) true
    let scope' := (Scope.empty.define "a" (.number 2) true).define "b" (.number 1) true
    let st : State := { State.initial with env := Environment.empty.pushFrame scope }
    let e := Environment.empty.pushFrame scope'
    (∀ x, e.bindingAt e.innermostLevel x = st.env.bindingAt st.env.innermostLevel x) ∧
      e.deleteVariable everyName = .error (.immutable "a") ∧
      st.env.deleteVariable everyName = .error (.immutable "a") := by
  intro scope scope' st e
  have same (x : String) :
      e.bindingAt e.innermostLevel x = st.env.bindingAt st.env.innermostLevel x := by
    simp only [e, st, Environment.bindingAt, Environment.scopeAt_innermostLevel, Option.bind_some]
    simp only [Environment.innermost, Environment.pushFrame, List.head?_cons, Option.getD_some,
      scope, scope', Scope.find?_define]
    grind
  have refused : st.env.deleteVariable everyName = .error (.immutable "a") := rfl
  obtain ⟨-, -, -, order⟩ := bindings_change_at_one_level_or_not_at_all st
  exact ⟨same, (order e same _).2 refused, refused⟩

end BraceScript
