-- What becomes of arrays that contain themselves when values are written as
-- documents. A value has a document if and only if no array in it contains
-- itself; a mark in the place of the arrays that do leaves no value without
-- one, and is not seen where it is not needed.
import BraceScript.Proofs.Json.Documents
import BraceScript.Proofs.Value.Reach
import BraceScript.Fault
import Mathlib

namespace BraceScript

/-! ## Documents have a text -/

/-- A number is written with one character at least. -/
theorem Json.writeNumber_ne_nil (x : Float) : (writeNumber x).toList ≠ [] := by
  cases exact : Number.Exact.ofFloat x with
  | nan | infinite =>
    have none : Number.toInt? x = none := by rw [Number.toInt?, exact]
    rw [writeNumber, none]
    simp [Number.Layout.write, exact, numberLayout]
  | finite negative m e =>
    by_cases zero : m = 0
    · subst zero
      rw [writeNumber_zero exact]
      decide
    · obtain ⟨n, text, -⟩ := writeNumber_eq exact zero
      obtain ⟨c, cs, some, -⟩ := n.exists_cons
      rw [text, some]
      split <;> simp

theorem Json.write_ne_empty (j : Json) : j.write ≠ "" := by
  have chars : j.chars ≠ [] := by
    cases j with
    | boolean b => cases b <;> simp [Json.chars]
    | number x => exact writeNumber_ne_nil x
    | _ => simp [Json.chars]
  intro empty
  rw [← toList_write, empty] at chars
  exact chars rfl

/-! ## The way without a bound -/

section

variable {α β : Type} {f g : α → Option β}

theorem mapM_congr {as : List α} (same : ∀ a ∈ as, f a = g a) : as.mapM f = as.mapM g := by
  induction as with
  | nil => rfl
  | cons a as ih =>
    rw [List.mapM_cons, List.mapM_cons, same a List.mem_cons_self,
      ih fun a mem => same a (List.mem_cons_of_mem _ mem)]

theorem mapM_eq_none_iff {as : List α} : as.mapM f = none ↔ ∃ a ∈ as, f a = none := by
  induction as with
  | nil => simp
  | cons a as ih =>
    rw [List.exists_mem_cons_iff, ← ih, List.mapM_cons]
    cases f a <;> cases as.mapM f <;> simp

theorem mapM_eq_some_of_imp {as : List α} {bs : List β}
    (imp : ∀ a ∈ as, ∀ b, f a = some b → g a = some b) (all : as.mapM f = some bs) :
    as.mapM g = some bs := by
  rw [← all]
  refine mapM_congr fun a mem => ?_
  cases found : f a with
  | none => cases (mapM_eq_none_iff.mpr ⟨a, mem, found⟩).symm.trans all
  | some b => exact imp a mem b found

end

namespace Heap

variable {h : Heap} {mark : Option Json} {entered : List ℕ} {v w : Value}

/-- The arrays that have not been entered. -/
def notEntered (h : Heap) (entered : List ℕ) : Finset ℕ := unmet (Finset.range h.size) entered

theorem card_notEntered_lt {i : ℕ} (mem : w ∈ (h.items i).toList) (new : i ∉ entered) :
    (h.notEntered (i :: entered)).card < (h.notEntered entered).card :=
  card_unmet_lt (Finset.mem_range.mpr (lt_size_of_mem mem)) new

/-- The document of a value, however deep arrays are entered. It ends because there are only
finitely many arrays to enter. -/
def documentFrom (h : Heap) (mark : Option Json) (entered : List ℕ) : Value → Option Json
  | .number x => some (.number x)
  | .text s => some (.text s)
  | .boolean b => some (.boolean b)
  | .void => some .null
  | .array i =>
    if i ∈ entered then mark
    else ((h.items i).toList.attach.mapM fun item =>
      documentFrom h mark (i :: entered) item.val).map .array
termination_by (h.notEntered entered).card
decreasing_by exact card_notEntered_lt item.property ‹_›

theorem documentFrom_array {i : ℕ} (new : i ∉ entered) :
    h.documentFrom mark entered (.array i) =
      ((h.items i).toList.mapM (h.documentFrom mark (i :: entered))).map .array := by
  rw [documentFrom, if_neg new]
  simp

/-- The bound that is put on the depth is not met. -/
theorem documentWithin_eq_documentFrom {depth : ℕ}
    (enough : (h.notEntered entered).card + 2 ≤ depth) :
    h.documentWithin mark depth entered v = h.documentFrom mark entered v := by
  induction depth generalizing entered v with
  | zero => omega
  | succ depth ih =>
    cases v <;> try (unfold documentWithin documentFrom; rfl)
    next i =>
      by_cases old : i ∈ entered
      · rw [documentWithin, documentFrom]
        simp [old]
      have deeper : ∀ w ∈ (h.items i).toList, h.documentWithin mark depth (i :: entered) w =
          h.documentFrom mark (i :: entered) w := by
        intro w mem
        have := card_notEntered_lt mem old
        exact ih (by omega)
      rw [documentWithin, documentFrom_array old, ← mapM_congr deeper]
      simp [old]

theorem document_eq_documentFrom (h : Heap) (mark : Option Json) (v : Value) :
    h.document mark v = h.documentFrom mark [] v := by
  refine documentWithin_eq_documentFrom (Nat.add_le_add_right ?_ 2)
  calc (h.notEntered []).card ≤ _ := card_unmet_le _ _
    _ = h.size := Finset.card_range _

/-! ## Arrays that contain themselves -/

/-- The array is inside of one of its own elements. -/
def ContainsItself (h : Heap) (i : ℕ) : Prop := ∃ w, h.Has (.array i) w ∧ h.Inside w (.array i)

theorem not_inside_of_scalar {i : ℕ} (scalar : ∀ k, v ≠ .array k) : ¬h.Inside v (.array i) := by
  intro inside
  obtain same | ⟨_, ⟨k, same, _⟩, _⟩ := inside.cases_head
  · exact scalar i same
  · exact scalar k same

/-- An array with items that are tried one by one fails at one of those that it has entered, or
where an array contains itself. -/
theorem exists_inside_items_iff {i : ℕ} (new : i ∉ entered) :
    (∃ w ∈ (h.items i).toList, ∃ k, h.Inside w (.array k) ∧
      (k ∈ i :: entered ∨ h.ContainsItself k)) ↔
    ∃ k, h.Inside (.array i) (.array k) ∧ (k ∈ entered ∨ h.ContainsItself k) := by
  constructor
  · rintro ⟨w, mem, k, inside, old | cycle⟩
    · obtain rfl | old := List.mem_cons.mp old
      · exact ⟨k, .refl, .inr ⟨w, ⟨k, rfl, mem⟩, inside⟩⟩
      · exact ⟨k, .head ⟨i, rfl, mem⟩ inside, .inl old⟩
    · exact ⟨k, .head ⟨i, rfl, mem⟩ inside, .inr cycle⟩
  · rintro ⟨k, inside, why⟩
    obtain same | ⟨w, ⟨_, same, mem⟩, inside⟩ := inside.cases_head
    · cases same
      obtain ⟨w, ⟨_, same, mem⟩, inside⟩ := why.resolve_left new
      cases same
      exact ⟨w, mem, i, inside, .inl List.mem_cons_self⟩
    · cases same
      exact ⟨w, mem, k, inside, why.imp_left (List.mem_cons_of_mem _)⟩

/-- Without a mark, a value has no document if and only if there is inside of it an array that it
lies in itself, or one that contains itself. -/
theorem documentFrom_eq_none_iff : h.documentFrom none entered v = none ↔
    ∃ k, h.Inside v (.array k) ∧ (k ∈ entered ∨ h.ContainsItself k) := by
  have scalar {v : Value} {entered : List ℕ} {j : Json} (noArray : ∀ k, v ≠ .array k) :
      some j = none ↔ ∃ k, h.Inside v (.array k) ∧ (k ∈ entered ∨ h.ContainsItself k) :=
    iff_of_false (by simp) fun ⟨_, inside, _⟩ => not_inside_of_scalar noArray inside
  fun_induction documentFrom h none entered v with
  | case1 | case2 | case3 | case4 => exact scalar (by simp)
  | case5 entered i old => exact iff_of_true rfl ⟨i, .refl, .inl old⟩
  | case6 entered i new ih =>
    rw [Option.map_eq_none_iff, mapM_eq_none_iff, ← exists_inside_items_iff new]
    constructor
    · rintro ⟨⟨w, mem⟩, -, fails⟩
      exact ⟨w, mem, (ih ⟨w, mem⟩).mp fails⟩
    · rintro ⟨w, mem, found⟩
      exact ⟨⟨w, mem⟩, List.mem_attach _ _, (ih ⟨w, mem⟩).mpr found⟩

/-- With a mark every value has a document. -/
theorem documentFrom_some_ne_none {j : Json} : h.documentFrom (some j) entered v ≠ none := by
  fun_induction documentFrom h (some j) entered v with
  | case6 entered i new ih =>
    rw [Ne, Option.map_eq_none_iff, mapM_eq_none_iff]
    rintro ⟨w, -, fails⟩
    exact ih w fails
  | _ => simp

/-- A mark is not seen in the document of a value that has one without it. -/
theorem documentFrom_eq_some_of_none {j : Json} (mark : Option Json)
    (found : h.documentFrom none entered v = some j) : h.documentFrom mark entered v = some j := by
  fun_induction documentFrom h none entered v generalizing j with
  | case1 | case2 | case3 | case4 =>
    rw [documentFrom]
    exact found
  | case5 => cases found
  | case6 entered i new ih =>
    obtain ⟨js, items, rfl⟩ := Option.map_eq_some_iff.mp found
    rw [documentFrom, if_neg new,
      mapM_eq_some_of_imp (fun w _ b found => ih w found) items, Option.map_some]

/-! ## The laws of encoding -/

theorem document_eq_none_iff (h : Heap) (v : Value) : h.document none v = none ↔
    ∃ i, h.Inside v (.array i) ∧ h.ContainsItself i := by
  rw [document_eq_documentFrom, documentFrom_eq_none_iff]
  simp

theorem document_of_acyclic (acyclic : ¬∃ i, h.Inside v (.array i) ∧ h.ContainsItself i) :
    ∃ j, ∀ mark, h.document mark v = some j := by
  rw [← document_eq_none_iff] at acyclic
  obtain ⟨j, found⟩ := Option.ne_none_iff_exists'.mp acyclic
  rw [document_eq_documentFrom] at found
  refine ⟨j, fun mark => ?_⟩
  rw [document_eq_documentFrom]
  exact documentFrom_eq_some_of_none mark found

end Heap

/-- The documents of a value, with and without a mark, are there without a bound on the depth.
Writing a value fails, with the code for bad JSON, if and only if an array that contains itself is
inside of it. If there is none, its text is also the text with marks, whatever the mark: an array
that is only met more than once is written out each time. And the text with marks is always that
of a document, so it is never empty. -/
theorem only_arrays_that_contain_themselves_have_no_text (h : Heap) (v : Value) :
    (∀ mark, h.document mark v = h.documentFrom mark [] v) ∧
    (h.toJson v = .error .containsItself ↔ ∃ i, h.Inside v (.array i) ∧ h.ContainsItself i) ∧
    (Fault.Cause.json .containsItself).code = .badJson ∧
    (h.toJson v = .ok (h.rendered v) ↔ ¬∃ i, h.Inside v (.array i) ∧ h.ContainsItself i) ∧
    ((¬∃ i, h.Inside v (.array i) ∧ h.ContainsItself i) →
      ∀ mark, h.document mark v = h.document none v) ∧
    ∃ j, h.document (some Heap.selfMark) v = some j ∧ h.rendered v = j.write ∧
      h.rendered v ≠ "" := by
  have fails : h.toJson v = .error .containsItself ↔
      ∃ i, h.Inside v (.array i) ∧ h.ContainsItself i := by
    rw [← h.document_eq_none_iff, Heap.toJson]
    cases h.document none v <;> simp
  refine ⟨fun mark => h.document_eq_documentFrom mark v, fails, rfl,
    ⟨fun ok => ?_, fun acyclic => ?_⟩, fun acyclic mark => ?_, ?_⟩
  · rw [← fails, ok]
    simp
  · obtain ⟨j, found⟩ := Heap.document_of_acyclic acyclic
    rw [Heap.toJson, Heap.rendered, found, found]
  · obtain ⟨j, found⟩ := Heap.document_of_acyclic acyclic
    rw [found, found]
  · have some : h.document (some Heap.selfMark) v ≠ none := by
      rw [Heap.document_eq_documentFrom]
      exact Heap.documentFrom_some_ne_none
    obtain ⟨j, found⟩ := Option.ne_none_iff_exists'.mp some
    have text : h.rendered v = j.write := by rw [Heap.rendered, found]
    exact ⟨j, found, text, by rw [text]; exact j.write_ne_empty⟩

/-- An array that is held twice is written twice. -/
example : (⟨#[#[.array 1, .array 1], #[.void]]⟩ : Heap).document (some Heap.selfMark) (.array 0) =
    some (.array [.array [.null], .array [.null]]) := rfl

/-- An array that holds itself is written up to the mark. -/
example : (⟨#[#[.array 0, .void]]⟩ : Heap).document (some Heap.selfMark) (.array 0) =
    some (.array [Heap.selfMark, .null]) := rfl

end BraceScript
