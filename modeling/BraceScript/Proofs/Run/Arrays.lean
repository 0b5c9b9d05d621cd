-- Reading, appending to and removing from a named array are edits of the list
-- of its elements. The array is the one that the name stands for before the
-- operand is evaluated, the list is the one that it holds afterwards, and
-- whatever else holds that array sees the edit.
import BraceScript.Proofs.Number.Value
import BraceScript.Proofs.Run.Moments

namespace BraceScript

/-! ## One array of a heap in another's place -/

namespace Heap

variable {h h' : Heap}

/-- The heap with other elements in one of its arrays. -/
def replace (h : Heap) (handle : ℕ) (items : List Value) : Heap :=
  ⟨h.arrays.setIfInBounds handle items.toArray⟩

@[simp] theorem size_replace (h : Heap) (handle : ℕ) (items : List Value) :
    (h.replace handle items).size = h.size := by
  simp [replace, size]

theorem items_replace {handle : ℕ} (bound : handle < h.size) (items : List Value) (other : ℕ) :
    (h.replace handle items).items other =
      if other = handle then items.toArray else h.items other := by
  simp only [size] at bound
  simp only [replace, Heap.items, Array.getD_eq_getD_getElem?, Array.getElem?_setIfInBounds]
  by_cases same : other = handle
  · subst same
    simp [bound]
  · simp [same, Ne.symm same]

theorem ext_items (size : h.size = h'.size) (items : ∀ handle, h.items handle = h'.items handle) :
    h = h' := by
  obtain ⟨arrays⟩ := h
  obtain ⟨arrays'⟩ := h'
  congr 1
  refine Array.ext size fun i bound bound' => ?_
  simpa [Heap.items, bound, bound'] using items i

/-- A heap in which only one array has changed. -/
theorem eq_replace {handle : ℕ} {items : List Value} (bound : handle < h.size)
    (size : h'.size = h.size) (self : h'.items handle = items.toArray)
    (others : ∀ other, other ≠ handle → h'.items other = h.items other) :
    h' = h.replace handle items := by
  refine ext_items (by simpa using size) fun other => ?_
  rw [items_replace bound]
  split
  · next same => rw [same, self]
  · next ne => exact others other ne

end Heap

/-! ## The operations -/

/-- The operations on a named array that have an operand. -/
inductive ArrayOperation where
  | element
  | append
  | remove

namespace ArrayOperation

/-- The expression for the operation. -/
def form (array : String) (operand : Expr) : ArrayOperation → ExprForm
  | .element => .index array operand
  | .append => .append array operand
  | .remove => .remove array operand

/-- The operation where it stands in a program. -/
def expr (op : ArrayOperation) (span : Span) (array : String) (operand : Expr) : Expr :=
  .at span (op.form array operand)

/-- What is done once the array and the operand are known. -/
def step (array : String) (handle : ℕ) (v : Value) : ArrayOperation → Exec Value
  | .element => elementAt array handle v
  | .append => pushElement handle v
  | .remove => removeElement array handle v

/-- With the operand, the operation comes to a value and turns the elements into others. -/
inductive Edits (h : Heap) : ArrayOperation → Value → List Value → Value → List Value → Prop where
  | element {x before v behind} : Number.value? x = some (before.length : ℚ) →
    Edits h .element (.number x) (before ++ v :: behind) v (before ++ v :: behind)
  | append {v items} :
    Edits h .append v items (.number (Number.ofInt (items.length + 1))) (items ++ [v])
  | removeAt {x before v behind} : Number.value? x = some (before.length : ℚ) →
    Edits h .remove (.number x) (before ++ v :: behind) v (before ++ behind)
  | removeText {s before v behind} : (∀ w ∈ before, h.strictEq w (.text s) = false) →
    h.strictEq v (.text s) = true →
    Edits h .remove (.text s) (before ++ v :: behind) v (before ++ behind)

/-- With the operand, the operation is refused for a cause. -/
inductive Refuses (h : Heap) (array : String) :
    ArrayOperation → Value → List Value → Fault.Cause → Prop where
  | outOfBounds {op x items} : op ≠ .append →
    (∀ place : ℕ, place < items.length → Number.value? x ≠ some (place : ℚ)) →
    Refuses h array op (.number x) items (.outOfBounds array x items.length)
  | notFound {s items} : (∀ w ∈ items, h.strictEq w (.text s) = false) →
    Refuses h array .remove (.text s) items (.notFound array s)
  | notNumeric {op v items} : op ≠ .append → (∀ x, v ≠ .number x) →
    (op = .remove → ∀ s, v ≠ .text s) →
    Refuses h array op v items (.nonNumericIndex v.kind)

variable {h : Heap} {op : ArrayOperation} {array : String} {v w w' : Value}
  {items items' items'' : List Value} {cause cause' : Fault.Cause}

/-! ### There is one outcome at most -/

theorem split_unique {before before' behind behind' : List Value}
    (same : before ++ v :: behind = before' ++ w :: behind')
    (length : before.length = before'.length) : before = before' ∧ v = w ∧ behind = behind' := by
  obtain ⟨front, rest⟩ := List.append_inj same length
  cases rest
  exact ⟨front, rfl, rfl⟩

/-- An element that is equal to a text, with none such before it, is the first one. -/
theorem first_unique {p : Value → Bool} {before before' behind behind' : List Value}
    (same : before ++ v :: behind = before' ++ w :: behind')
    (none : ∀ u ∈ before, p u = false) (found : p v = true)
    (none' : ∀ u ∈ before', p u = false) (found' : p w = true) :
    before = before' ∧ v = w ∧ behind = behind' := by
  induction before generalizing before' with
  | nil =>
    cases before' with
    | nil =>
      cases same
      exact ⟨rfl, rfl, rfl⟩
    | cons u before' =>
      cases same
      rw [none' v List.mem_cons_self] at found
      cases found
  | cons u before ih =>
    cases before' with
    | nil =>
      cases same
      rw [none w List.mem_cons_self] at found'
      cases found'
    | cons u' before' =>
      obtain ⟨rfl, tails⟩ := List.cons.inj same
      obtain ⟨rfl, rfl, rfl⟩ := ih tails (fun u mem => none u (List.mem_cons_of_mem _ mem))
        fun u mem => none' u (List.mem_cons_of_mem _ mem)
      exact ⟨rfl, rfl, rfl⟩

theorem length_unique {x : Float} {m n : ℕ} (first : Number.value? x = some (m : ℚ))
    (second : Number.value? x = some (n : ℚ)) : m = n := by
  rw [first] at second
  exact_mod_cast Option.some.inj second

theorem Edits.unique (edits : op.Edits h v items w items')
    (edits' : op.Edits h v items w' items'') : w = w' ∧ items' = items'' := by
  generalize known : items = items₀ at edits'
  cases edits with
  | element place =>
    cases edits' with
    | element place' =>
      obtain ⟨rfl, rfl, rfl⟩ := split_unique known (length_unique place place')
      exact ⟨rfl, rfl⟩
  | append =>
    cases edits' with
    | append =>
      subst known
      exact ⟨rfl, rfl⟩
  | removeAt place =>
    cases edits' with
    | removeAt place' =>
      obtain ⟨rfl, rfl, rfl⟩ := split_unique known (length_unique place place')
      exact ⟨rfl, rfl⟩
  | removeText none found =>
    cases edits' with
    | removeText none' found' =>
      obtain ⟨rfl, rfl, rfl⟩ := first_unique known none found none' found'
      exact ⟨rfl, rfl⟩

theorem Refuses.unique (refuses : op.Refuses h array v items cause)
    (refuses' : op.Refuses h array v items cause') : cause = cause' := by
  cases refuses with
  | outOfBounds =>
    cases refuses' with
    | outOfBounds => rfl
    | notNumeric _ none => exact absurd rfl (none _)
  | notFound =>
    cases refuses' with
    | notFound => rfl
    | notNumeric _ _ none => exact absurd rfl (none rfl _)
  | notNumeric _ none noText =>
    cases refuses' with
    | outOfBounds => exact absurd rfl (none _)
    | notFound => exact absurd rfl (noText rfl _)
    | notNumeric => rfl

theorem Edits.not_refuses (edits : op.Edits h v items w items') :
    ¬op.Refuses h array v items cause := by
  intro refuses
  cases edits with
  | element place =>
    cases refuses with
    | outOfBounds _ none => exact none _ (by simp) place
    | notNumeric _ none => exact none _ rfl
  | append =>
    cases refuses with
    | outOfBounds ne => exact ne rfl
    | notNumeric ne => exact ne rfl
  | removeAt place =>
    cases refuses with
    | outOfBounds _ none => exact none _ (by simp) place
    | notNumeric _ none => exact none _ rfl
  | removeText none found =>
    cases refuses with
    | notFound none' =>
      rw [none' _ (by simp)] at found
      cases found
    | notNumeric _ _ none' => exact none' rfl _ rfl

/-! ### There is one outcome at least -/

/-- An index names an element, or it is refused. -/
theorem checkIndex_cases (array : String) (items : List Value) (v : Value) :
    (∃ x before w behind, v = .number x ∧ items = before ++ w :: behind ∧
      Number.value? x = some (before.length : ℚ) ∧
      checkIndex array items.length v = .ok before.length) ∨
    ∃ cause, (∀ op h, op ≠ .append → (op = .remove → ∀ s, v ≠ .text s) →
        Refuses h array op v items cause) ∧
      checkIndex array items.length v = .error cause := by
  cases v with
  | text | boolean | array | void =>
    exact .inr ⟨_, fun op h ne noText => .notNumeric ne nofun noText, rfl⟩
  | number x =>
    have whole (n : ℤ) := Number.toInt?_eq_some (x := x) (n := n)
    have refused (none : ∀ place : ℕ, place < items.length → Number.value? x ≠ some (place : ℚ))
        (checked : checkIndex array items.length (.number x) =
          .error (.outOfBounds array x items.length)) : ∃ cause,
          (∀ op h, op ≠ .append → (op = .remove → ∀ s, Value.number x ≠ .text s) →
            Refuses h array op (.number x) items cause) ∧
          checkIndex array items.length (.number x) = .error cause :=
      ⟨_, fun op h ne _ => .outOfBounds ne none, checked⟩
    have unread (none : ∀ n : ℕ, Number.toInt? x ≠ some (n : ℤ)) (place : ℕ)
        (_ : place < items.length) : Number.value? x ≠ some (place : ℚ) :=
      fun known => none place ((whole place).mpr (by exact_mod_cast known))
    cases read : Number.toInt? x with
    | none => exact .inr (refused (unread (by simp [read])) (by simp [checkIndex, read]))
    | some n =>
      cases n with
      | negSucc n => exact .inr (refused (unread (by simp [read])) (by simp [checkIndex, read]))
      | ofNat n =>
        have known : Number.value? x = some (n : ℚ) := by exact_mod_cast (whole n).mp read
        by_cases below : n < items.length
        · have length : (items.take n).length = n := by simp [below.le]
          refine .inl ⟨x, items.take n, items[n], items.drop (n + 1), rfl, by simp, ?_, ?_⟩
          · rw [length, known]
          · rw [length]
            simp [checkIndex, read, below]
        · refine .inr (refused (fun place bound known' => ?_) (by simp [checkIndex, read, below]))
          rw [length_unique known known'] at below
          exact below bound

/-- The first element with a property, or there is none. -/
theorem findIdx?_cases (p : Value → Bool) (items : List Value) :
    (∃ before w behind, items = before ++ w :: behind ∧ (∀ u ∈ before, p u = false) ∧
      p w = true ∧ items.findIdx? p = some before.length) ∨
    (∀ u ∈ items, p u = false) ∧ items.findIdx? p = none := by
  cases found : items.findIdx? p with
  | none => exact .inr ⟨List.findIdx?_eq_none_iff.mp found, rfl⟩
  | some place =>
    obtain ⟨bound, holds, first⟩ := List.findIdx?_eq_some_iff_getElem.mp found
    have length : (items.take place).length = place := by simp [bound.le]
    refine .inl ⟨items.take place, items[place], items.drop (place + 1), by simp, ?_, holds, ?_⟩
    · intro u mem
      obtain ⟨i, small, rfl⟩ := List.getElem_of_mem mem
      rw [length] at small
      simpa using first i small
    · rw [length]

/-- A key names an element, or it is refused. -/
theorem keyPlace_cases (h : Heap) (array : String) (handle : ℕ) (v : Value) :
    (∃ before w behind, (h.items handle).toList = before ++ w :: behind ∧
      Edits h .remove v (before ++ w :: behind) w (before ++ behind) ∧
      keyPlace h array handle v = .ok before.length) ∨
    ∃ cause, Refuses h array .remove v (h.items handle).toList cause ∧
      keyPlace h array handle v = .error cause := by
  have indexed (noText : ∀ s, v ≠ .text s) :
      keyPlace h array handle v = checkIndex array (h.items handle).toList.length v := by
    cases v with
    | text s => exact absurd rfl (noText s)
    | number | boolean | array | void => rfl
  by_cases isText : ∃ s, v = .text s
  · obtain ⟨s, rfl⟩ := isText
    unfold keyPlace
    obtain ⟨before, w, behind, split, none, equal, found⟩ | ⟨none, found⟩ :=
      findIdx?_cases (fun item => h.strictEq item (.text s)) (h.items handle).toList
    · exact .inl ⟨before, w, behind, split, .removeText none equal, by simp [found]⟩
    · exact .inr ⟨_, .notFound none, by simp [found]⟩
  · have noText (s : String) (same : v = .text s) : False := isText ⟨s, same⟩
    rw [indexed noText]
    obtain ⟨x, before, w, behind, rfl, split, known, checked⟩ | ⟨cause, refused, checked⟩ :=
      checkIndex_cases array (h.items handle).toList v
    · exact .inl ⟨before, w, behind, split, .removeAt known, checked⟩
    · exact .inr ⟨cause, refused _ _ nofun fun _ => noText, checked⟩

theorem getD_of_split {elements : Array Value} {before behind : List Value}
    (split : elements.toList = before ++ w :: behind) :
    elements.getD before.length .void = w := by
  rw [Array.getD_eq_getD_getElem?, ← Array.getElem?_toList, split]
  simp

theorem eraseAt_of_split {handle : ℕ} {before behind : List Value}
    (split : (h.items handle).toList = before ++ w :: behind) :
    h.eraseAt handle before.length = h.replace handle (before ++ behind) := by
  have bound : handle < h.size := Heap.lt_size_of_mem (v := w) (by simp [split])
  refine Heap.eq_replace bound (by simp) ?_ fun other ne => Heap.items_eraseAt_of_ne h ne _
  rw [Heap.items_eraseAt_self, ← Array.toList_inj, Array.toList_eraseIdxIfInBounds, split]
  simp [List.eraseIdx_append_of_length_le]

theorem push_eq_replace {handle : ℕ} (bound : handle < h.size) :
    h.push handle v = h.replace handle ((h.items handle).toList ++ [v]) := by
  refine Heap.eq_replace bound (by simp) ?_ fun other ne => Heap.items_push_of_ne h ne _
  rw [Heap.items_push_self h bound, ← Array.toList_inj]
  simp

theorem replace_self {handle : ℕ} (bound : handle < h.size) :
    h.replace handle (h.items handle).toList = h :=
  (Heap.eq_replace bound rfl (by simp) fun _ _ => rfl).symm

/-- Once array and operand are known, the elements are edited or the operation is refused. -/
theorem step_cases (op : ArrayOperation) (array : String) {handle : ℕ} (v : Value) {st : State}
    (bound : handle < st.heap.size) :
    (∃ w items', op.Edits st.heap v (st.heap.items handle).toList w items' ∧
      op.step array handle v st = .ok w { st with heap := st.heap.replace handle items' }) ∨
    ∃ cause, op.Refuses st.heap array v (st.heap.items handle).toList cause ∧
      op.step array handle v st = .failed { cause } st := by
  cases op with
  | element =>
    simp only [step, elementAt, Exec.get_bind]
    obtain ⟨x, before, w, behind, rfl, split, known, checked⟩ | ⟨cause, refused, checked⟩ :=
      checkIndex_cases array (st.heap.items handle).toList v
    · left
      refine ⟨w, (st.heap.items handle).toList, split ▸ .element known, ?_⟩
      rw [replace_self bound, ← getD_of_split split]
      simp only [Heap.lengthOf, ← Array.length_toList, checked]
      rfl
    · refine .inr ⟨cause, refused _ _ nofun nofun, ?_⟩
      simp only [Heap.lengthOf, ← Array.length_toList, checked]
      rfl
  | append =>
    have length : ((st.heap.items handle).toList.length + 1 : ℤ) =
        (st.heap.push handle v).lengthOf handle := by
      rw [Heap.lengthOf, Heap.items_push_self _ bound]
      simp
    refine .inl ⟨_, _, .append, ?_⟩
    rw [← push_eq_replace bound, length]
    rfl
  | remove =>
    simp only [step, removeElement, Exec.get_bind]
    obtain ⟨before, w, behind, split, edits, found⟩ | ⟨cause, refused, found⟩ :=
      keyPlace_cases st.heap array handle v
    · refine .inl ⟨w, before ++ behind, split ▸ edits, ?_⟩
      rw [found, ← eraseAt_of_split split, ← getD_of_split split]
      rfl
    · refine .inr ⟨cause, refused, ?_⟩
      rw [found]
      rfl

/-- What is done once array and operand are known, said once for all outcomes. -/
theorem step_iff (op : ArrayOperation) (array : String) {handle : ℕ} (v : Value) {st : State}
    (bound : handle < st.heap.size) :
    (∀ w last, op.step array handle v st = .ok w last ↔
      ∃ items', op.Edits st.heap v (st.heap.items handle).toList w items' ∧
        last = { st with heap := st.heap.replace handle items' }) ∧
    ∀ f last, op.step array handle v st = .failed f last ↔
      ∃ cause, op.Refuses st.heap array v (st.heap.items handle).toList cause ∧
        f = { cause } ∧ last = st := by
  obtain ⟨w, items', edits, done⟩ | ⟨cause, refuses, done⟩ := op.step_cases array v bound
  · rw [done]
    constructor
    · intro w' last
      constructor
      · rintro ⟨⟩
        exact ⟨items', edits, rfl⟩
      · rintro ⟨items'', edits', rfl⟩
        obtain ⟨rfl, rfl⟩ := edits.unique edits'
        rfl
    · intro f last
      constructor
      · rintro ⟨⟩
      · rintro ⟨cause, refuses, -⟩
        exact absurd refuses edits.not_refuses
  · rw [done]
    constructor
    · intro w last
      constructor
      · rintro ⟨⟩
      · rintro ⟨items', edits, -⟩
        exact absurd refuses edits.not_refuses
    · intro f last
      constructor
      · rintro ⟨⟩
        exact ⟨cause, refuses, rfl, rfl⟩
      · rintro ⟨cause', refuses', rfl, rfl⟩
        rw [refuses.unique refuses']

/-- A number names an element if it is whole and stands for one of the places. -/
theorem edits_number_iff {x : Float} (ne : op ≠ .append) :
    (∃ w items', op.Edits h (.number x) items w items') ↔
      ∃ n : ℤ, Number.value? x = some (n : ℚ) ∧ 0 ≤ n ∧ n < items.length := by
  constructor
  · rintro ⟨w, items', edits⟩
    cases edits with
    | element known | removeAt known => exact ⟨_, by exact_mod_cast known, by omega, by simp⟩
    | append => exact absurd rfl ne
  · rintro ⟨n, known, nonneg, below⟩
    obtain ⟨place, rfl⟩ := Int.eq_ofNat_of_zero_le nonneg
    have bound : place < items.length := by exact_mod_cast below
    have length : (items.take place).length = place := by simp [bound.le]
    have split : items = items.take place ++ items[place] :: items.drop (place + 1) := by simp
    have known' : Number.value? x = some ((items.take place).length : ℚ) := by
      rw [length]
      exact_mod_cast known
    rw [split]
    cases op with
    | element => exact ⟨_, _, .element known'⟩
    | append => exact absurd rfl ne
    | remove => exact ⟨_, _, .removeAt known'⟩

/-- What an operation is refused for. -/
theorem Refuses.label (refuses : op.Refuses h array v items cause) :
    cause.code.label ∈ ["E3003", "E4001", "E4002"] := by
  obtain same | same | same : cause.code = .nonNumericIndex ∨ cause.code = .indexOutOfBounds ∨
      cause.code = .valueNotFound := by
    cases refuses <;> simp [Fault.Cause.code]
  all_goals rw [same]; decide

/-! ## In a run -/

theorem valueOf_form (host : Host) (ev : Evaluator) (op : ArrayOperation) (array : String)
    (operand : Expr) (st : State) :
    valueOf host ev (op.form array operand) st =
      (namedArray array st).andThen fun handle =>
        ev.expr operand >>= fun v => op.step array handle v := by
  cases op <;> rfl

variable {host : Host} {fuel : ℕ} {span : Span} {operand : Expr} {st : State}

theorem eval_of_lookup {handle : ℕ} (op : ArrayOperation)
    (named : st.env.lookup array = some (.array handle)) :
    evalExpr host (fuel + 1) (op.expr span array operand) st =
      ((evalExpr host fuel operand st).andThen fun v => op.step array handle v).refault
        (·.within span) := by
  have found : namedArray array st = .ok handle st := by simp [namedArray, Exec.get_bind, named]
  rw [expr, evalExpr, Exec.within_apply, valueOf_form, found]
  rfl

theorem eval_of_no_array (op : ArrayOperation)
    (noArray : ∀ handle, st.env.lookup array ≠ some (.array handle)) :
    evalExpr host (fuel + 1) (op.expr span array operand) st = .failed
      { cause := match st.env.lookup array with
          | some v => .notAnArray array v.kind
          | none => .undefinedVariable array
        span := some span } st := by
  rw [expr, evalExpr, Exec.within_apply, valueOf_form]
  unfold namedArray
  rw [Exec.get_bind]
  cases named : st.env.lookup array with
  | none => rfl
  | some v =>
    cases v with
    | array handle => exact absurd named (noArray handle)
    | number | text | boolean | void => rfl

end ArrayOperation

/-- In a state without stray handles, and a session comes through no others, an operation on a
named array looks the array up before its operand is evaluated, and acts on the elements that it
has afterwards. If the operation succeeds, the elements of this one array are edited and nothing
else is changed; if it is refused, nothing is changed at all. A number names an element if and
only if it is whole, not below zero and below the length. -/
theorem array_operations_edit_one_list (host : Host) (fuel : ℕ) (span : Span)
    (op : ArrayOperation) (array : String) (operand : Expr) {st : State} (intact : st.Intact) :
    (∀ sources, ∀ m ∈ sessionCourse host fuel sources State.initial, m.state.Intact) ∧
    ((∀ handle, st.env.lookup array ≠ some (.array handle)) →
      evalExpr host (fuel + 1) (op.expr span array operand) st = .failed
        { cause := match st.env.lookup array with
            | some v => .notAnArray array v.kind
            | none => .undefinedVariable array
          span := some span } st) ∧
    ∀ handle, st.env.lookup array = some (.array handle) →
      (∀ f mid, evalExpr host fuel operand st = .failed f mid →
        evalExpr host (fuel + 1) (op.expr span array operand) st =
          .failed (f.within span) mid) ∧
      (∀ reason, evalExpr host fuel operand st = .broken reason →
        evalExpr host (fuel + 1) (op.expr span array operand) st = .broken reason) ∧
      ∀ v mid, evalExpr host fuel operand st = .ok v mid →
        ((∃ w items', op.Edits mid.heap v (mid.heap.items handle).toList w items') ∨
          ∃ cause, op.Refuses mid.heap array v (mid.heap.items handle).toList cause) ∧
        (∀ w last, evalExpr host (fuel + 1) (op.expr span array operand) st = .ok w last ↔
          ∃ items', op.Edits mid.heap v (mid.heap.items handle).toList w items' ∧
            last = { mid with heap := mid.heap.replace handle items' }) ∧
        (∀ f last, evalExpr host (fuel + 1) (op.expr span array operand) st = .failed f last ↔
          ∃ cause, op.Refuses mid.heap array v (mid.heap.items handle).toList cause ∧
            f = { cause, span := some span } ∧ last = mid) ∧
        (∀ cause, op.Refuses mid.heap array v (mid.heap.items handle).toList cause →
          cause.code.label ∈ ["E3003", "E4001", "E4002"]) ∧
        (∀ x, v = .number x → op ≠ .append →
          ((∃ w items', op.Edits mid.heap v (mid.heap.items handle).toList w items') ↔
            ∃ n : ℤ, Number.value? x = some (n : ℚ) ∧ 0 ≤ n ∧ n < mid.heap.lengthOf handle)) ∧
        ∀ items', (mid.heap.replace handle items').size = mid.heap.size ∧
          ∀ other, (mid.heap.replace handle items').items other =
            if other = handle then items'.toArray else mid.heap.items other := by
  refine ⟨fun sources => intact_sessionCourse host fuel sources State.intact_initial,
    op.eval_of_no_array, fun handle named => ?_⟩
  rw [op.eval_of_lookup named]
  refine ⟨fun f mid ran => by rw [ran]; rfl, fun reason ran => by rw [ran]; rfl,
    fun v mid ran => ?_⟩
  have onward : st.Onward mid := by
    have kept := (intact_evaluator host fuel).expr operand st intact
    change (evalExpr host fuel operand st).Intact State.Holds st at kept
    rw [ran] at kept
    exact kept.1
  have bound : handle < mid.heap.size :=
    (intact.holds_of_lookup named handle rfl).trans_le onward.size
  obtain ⟨succeeds, fails⟩ := op.step_iff array v bound
  rw [ran]
  simp only [Outcome.andThen]
  refine ⟨?_, fun w last => ?_, fun f last => ?_, fun cause refuses => refuses.label, ?_, ?_⟩
  · obtain ⟨w, items', edits, -⟩ | ⟨cause, refuses, -⟩ := op.step_cases array v bound
    · exact .inl ⟨w, items', edits⟩
    · exact .inr ⟨cause, refuses⟩
  · rw [← succeeds]
    cases op.step array handle v mid <;> simp [Outcome.refault]
  · constructor
    · intro failed
      cases done : op.step array handle v mid with
      | failed g final =>
        obtain ⟨cause, refuses, rfl, rfl⟩ := (fails g final).mp done
        rw [done] at failed
        cases failed
        exact ⟨cause, refuses, rfl, rfl⟩
      | ok | broken =>
        rw [done] at failed
        cases failed
    · rintro ⟨cause, refuses, rfl, rfl⟩
      rw [(fails { cause } last).mpr ⟨cause, refuses, rfl, rfl⟩]
      rfl
  · rintro x rfl ne
    rw [ArrayOperation.edits_number_iff ne]
    simp [Heap.lengthOf]
  · exact fun items' => ⟨by simp, mid.heap.items_replace bound items'⟩

/-- Two names stand for the array `[1]`. The operand of a removal from the first one appends a 2
through the second one, gives the first one a new array, and comes to 1: so the 2 is removed from
the old array, which is in range only since the operand has been evaluated. -/
theorem removal_from_an_array_that_its_operand_grows :
    let host : Host := ⟨Files.inMemory, none⟩
    let body : List Stmt :=
      [.at ⟨11, 23⟩ (.value (.at ⟨11, 23⟩ (.append "b" (.at ⟨21, 22⟩ (.number 2))))),
        .at ⟨24, 30⟩ (.assign "a" (.at ⟨28, 30⟩ (.array []))),
        .at ⟨31, 39⟩ (.return (some (.at ⟨38, 39⟩ (.number 1))))]
    let globals := (Scope.empty.define "a" (.array 0) false).define "b" (.array 0) false
    let st : State := ⟨⟨globals, [], [("f", ⟨"f", [], body⟩)]⟩, ⟨#[#[.number 1]]⟩, [], #[]⟩
    st.Intact ∧ ∃ last,
      evalExpr host 9 (ArrayOperation.remove.expr ⟨42, 56⟩ "a" (.at ⟨52, 55⟩ (.call "f" []))) st =
        .ok (.number 2) last ∧
      last.env.lookup "a" = some (.array 1) ∧ last.env.lookup "b" = some (.array 0) ∧
      last.heap.items 0 = #[.number 1] ∧ last.heap.items 1 = #[] := by
  intro host body globals st
  have intact : st.Intact := by
    constructor
    · rintro (_ | depth) name b found
      · simp only [Environment.bindingAt, Environment.scopeAt, st, globals, Option.bind_some,
          Scope.find?_define] at found
        split at found
        · cases found
          rintro handle ⟨⟩
          decide
        · split at found
          · cases found
            rintro handle ⟨⟩
            decide
          · cases found
      · cases found
    · intro handle v mem
      obtain rfl : handle = 0 := Nat.lt_one_iff.mp (Heap.lt_size_of_mem mem)
      obtain rfl : v = .number 1 := by simpa [st, Heap.items] using mem
      exact Heap.holds_number _ 1
  obtain ⟨mid, ran, a, b, old, new⟩ : ∃ mid,
      evalExpr host 8 (.at ⟨52, 55⟩ (.call "f" [])) st = .ok (.number 1) mid ∧
      mid.env.lookup "a" = some (.array 1) ∧ mid.env.lookup "b" = some (.array 0) ∧
      mid.heap.items 0 = #[.number 1, .number 2] ∧ mid.heap.items 1 = #[] :=
    ⟨_, rfl, rfl, rfl, rfl, rfl⟩
  have one : Number.value? 1 = some (([.number 1] : List Value).length : ℚ) :=
    (Number.toInt?_eq_some (n := 1)).mp (by decide)
  obtain ⟨-, -, named⟩ := array_operations_edit_one_list host 8 ⟨42, 56⟩ .remove "a"
    (.at ⟨52, 55⟩ (.call "f" [])) intact
  obtain ⟨-, -, done⟩ := named 0 rfl
  obtain ⟨-, succeeds, -, -, -, replaced⟩ := done _ _ ran
  have edits : ArrayOperation.Edits mid.heap .remove (.number 1) (mid.heap.items 0).toList
      (.number 2) [.number 1] := by
    rw [old]
    exact .removeAt one
  refine ⟨intact, _, (succeeds _ _).mpr ⟨_, edits, rfl⟩, a, b, ?_, ?_⟩
  · simp [(replaced _).2]
  · simp [(replaced _).2, new]

end BraceScript
