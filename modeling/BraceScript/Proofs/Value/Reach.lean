-- What a value is made of: its elements, theirs, and so on. An array that
-- contains itself is made of itself. Whoever goes through a value and does not
-- meet anything twice comes to an end, for there are only so many arrays.
import BraceScript.Value
import Mathlib.Data.Finset.Prod
import Mathlib.Logic.Relation

namespace BraceScript

/-! ## What has been met -/

/-- What has not been met, out of a finite collection. -/
def unmet {α : Type} [DecidableEq α] (all : Finset α) (met : List α) : Finset α :=
  all.filter (· ∉ met)

theorem card_unmet_lt {α : Type} [DecidableEq α] {all : Finset α} {met : List α} {a : α}
    (mem : a ∈ all) (new : a ∉ met) : (unmet all (a :: met)).card < (unmet all met).card := by
  apply Finset.card_lt_card
  rw [Finset.ssubset_iff_of_subset]
  · exact ⟨a, by simp [unmet, mem, new], by simp [unmet]⟩
  · intro b
    simp +contextual [unmet]

theorem card_unmet_le {α : Type} [DecidableEq α] (all : Finset α) (met : List α) :
    (unmet all met).card ≤ all.card := Finset.card_filter_le _ _

/-! ## What a value is made of -/

namespace Heap

variable {h : Heap}

/-- The first value is an array that has the second one as an element. -/
def Has (h : Heap) (v w : Value) : Prop := ∃ i, v = .array i ∧ w ∈ (h.items i).toList

/-- The second value is the first one, or lies in it at some depth. -/
def Inside (h : Heap) (v w : Value) : Prop := Relation.ReflTransGen h.Has v w

/-- What has an element is an array of the heap. -/
theorem lt_size_of_mem {i : ℕ} {v : Value} (mem : v ∈ (h.items i).toList) : i < h.size := by
  by_contra outside
  rw [items, Array.getD_eq_getD_getElem?, Array.getElem?_eq_none (by simpa [size] using outside)]
    at mem
  simp at mem

end Heap

end BraceScript
