-- What it takes that no handle leads out of a heap: all that its arrays hold
-- are values of its own, and however it changes, it loses none of them.
import BraceScript.Builtin
import BraceScript.Proofs.Value.Reach
import BraceScript.Value.Document

namespace BraceScript

/-! ## The arrays of a heap -/

namespace Heap

variable {h h' : Heap} {v : Value}

@[simp] theorem size_alloc (h : Heap) (items : List Value) :
    (h.alloc items).2.size = h.size + 1 := by
  simp [alloc, size]

@[simp] theorem size_push (h : Heap) (handle : ℕ) (v : Value) :
    (h.push handle v).size = h.size := by
  simp [push, size]

@[simp] theorem size_eraseAt (h : Heap) (handle position : ℕ) :
    (h.eraseAt handle position).size = h.size := by
  simp [eraseAt, size]

/-- The value is an array of the heap, or no array. -/
def Holds (h : Heap) (v : Value) : Prop := ∀ handle, v = .array handle → handle < h.size

theorem Holds.mono (holds : h.Holds v) (le : h.size ≤ h'.size) : h'.Holds v :=
  fun handle same => (holds handle same).trans_le le

/-- Only an array has to be in the heap. -/
@[simp] theorem holds_number (h : Heap) (x : Float) : h.Holds (.number x) := by
  rintro handle ⟨⟩

@[simp] theorem holds_text (h : Heap) (s : String) : h.Holds (.text s) := by
  rintro handle ⟨⟩

@[simp] theorem holds_boolean (h : Heap) (b : Bool) : h.Holds (.boolean b) := by
  rintro handle ⟨⟩

@[simp] theorem holds_void (h : Heap) : h.Holds .void := by
  rintro handle ⟨⟩

/-- What the arrays of the heap hold is held by the heap. -/
def Closed (h : Heap) : Prop := ∀ handle, ∀ v ∈ (h.items handle).toList, h.Holds v

/-- A heap that the other one may become: no array is lost, and nothing in one leads out of it. -/
structure Grows (h h' : Heap) : Prop where
  size : h.size ≤ h'.size
  closed : h'.Closed

theorem Closed.grows (closed : h.Closed) : h.Grows h := ⟨le_rfl, closed⟩

theorem Grows.trans {h'' : Heap} (first : h.Grows h') (second : h'.Grows h'') : h.Grows h'' :=
  ⟨first.size.trans second.size, second.closed⟩

theorem Closed.alloc {items : List Value} (closed : h.Closed) (held : ∀ v ∈ items, h.Holds v) :
    h.Grows (h.alloc items).2 ∧ (h.alloc items).2.Holds (.array (h.alloc items).1) := by
  have le : h.size ≤ (h.alloc items).2.size := by simp
  refine ⟨⟨le, fun handle v mem => ?_⟩, ?_⟩
  · rw [items_alloc] at mem
    split at mem
    · exact (held v (by simpa using mem)).mono le
    · exact (closed handle v mem).mono le
  · rintro handle same
    cases same
    simp [Heap.alloc, Heap.size]

theorem Closed.push {handle : ℕ} (closed : h.Closed) (held : h.Holds v) :
    h.Grows (h.push handle v) := by
  have le : h.size ≤ (h.push handle v).size := by simp
  refine ⟨le, fun other w mem => ?_⟩
  by_cases same : other = handle
  · subst same
    by_cases bound : other < h.size
    · rw [items_push_self h bound] at mem
      obtain old | rfl := List.mem_append.mp (Array.toList_push ▸ mem) |>.imp_right
        List.mem_singleton.mp
      · exact (closed other w old).mono le
      · exact held.mono le
    · exact absurd (lt_size_of_mem mem) (by simpa using bound)
  · rw [items_push_of_ne h same] at mem
    exact (closed other w mem).mono le

theorem Closed.eraseAt {handle position : ℕ} (closed : h.Closed) :
    h.Grows (h.eraseAt handle position) := by
  have le : h.size ≤ (h.eraseAt handle position).size := by simp
  refine ⟨le, fun other w mem => ?_⟩
  by_cases same : other = handle
  · subst same
    rw [items_eraseAt_self, Array.toList_eraseIdxIfInBounds] at mem
    exact (closed other w (List.mem_of_mem_eraseIdx mem)).mono le
  · rw [items_eraseAt_of_ne h same] at mem
    exact (closed other w mem).mono le

mutual

/-- Every array of a document is a new one. -/
theorem grows_ofDocument {h h' : Heap} {v : Value} : ∀ {j : Json},
    j.value? h = some (v, h') → h.Closed → h.Grows h' ∧ h'.Holds v
  | .null, made, closed | .boolean _, made, closed | .number _, made, closed
  | .text _, made, closed => by
    cases made
    exact ⟨closed.grows, by simp⟩
  | .array items, made, closed => by
    unfold Json.value? at made
    split at made
    · next values mid inner =>
      cases made
      obtain ⟨grows, held⟩ := grows_ofDocuments inner closed
      obtain ⟨grows', held'⟩ := grows.closed.alloc held
      exact ⟨grows.trans grows', held'⟩
    · cases made
  | .object, made, _ => by cases made

theorem grows_ofDocuments {h h' : Heap} {vs : List Value} : ∀ {js : List Json},
    Json.values? h js = some (vs, h') → h.Closed → h.Grows h' ∧ ∀ v ∈ vs, h'.Holds v
  | [], made, closed => by
    cases made
    exact ⟨closed.grows, List.forall_mem_nil _⟩
  | j :: js, made, closed => by
    unfold Json.values? at made
    split at made
    · next v mid first =>
      split at made
      · next vs last rest =>
        cases made
        obtain ⟨grows, held⟩ := grows_ofDocument first closed
        obtain ⟨grows', held'⟩ := grows_ofDocuments rest grows.closed
        exact ⟨grows.trans grows', List.forall_mem_cons.mpr ⟨held.mono grows'.size, held'⟩⟩
      · cases made
    · cases made

end

theorem grows_ofJson {text : String} {made : Value × Heap} (read : h.ofJson text = .ok made)
    (closed : h.Closed) : h.Grows made.2 ∧ made.2.Holds made.1 := by
  unfold ofJson at read
  split at read
  · cases read
  · split at read
    · next value =>
      cases read
      exact grows_ofDocument value closed
    · cases read

/-- The words of a text are a new array. -/
theorem grows_ofText {function : TextFunction} {made : Value × Heap}
    (applied : function.apply h v = .ok made) (closed : h.Closed) :
    h.Grows made.2 ∧ made.2.Holds made.1 := by
  have computed (text : String) : h.Grows (function.compute h text).2 ∧
      (function.compute h text).2.Holds (function.compute h text).1 := by
    cases function with
    | tokenize =>
      refine closed.alloc fun v mem => ?_
      obtain ⟨word, -, rfl⟩ := List.mem_map.mp mem
      exact h.holds_text word
    | uppercase | lowercase | reverse => exact ⟨closed.grows, h.holds_text _⟩
  unfold TextFunction.apply at applied
  split at applied <;> cases applied
  · exact computed _
  · exact computed _

end Heap

end BraceScript
