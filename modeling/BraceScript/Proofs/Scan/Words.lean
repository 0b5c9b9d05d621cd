-- Whole words: a word is found in the table of refused words exactly if it is
-- in it, and is then no keyword. What a word means is decided by all of it.
import BraceScript.Token.Scan

namespace BraceScript

/-! ## Alphabetical order -/

theorem isBefore_irrefl (a : String) : isBefore a a = false := by
  rw [isBefore, Bool.eq_false_iff, ne_eq, List.lex_eq_true_iff_lex]
  exact List.lex_irrefl (fun c => by simp) _

theorem isBefore_asymm {a b : String} (h : isBefore a b = true) : isBefore b a = false := by
  rw [isBefore, List.lex_eq_true_iff_lex] at h
  rw [isBefore, Bool.eq_false_iff, ne_eq, List.lex_eq_true_iff_lex]
  refine List.lex_asymm (fun {c d} before => ?_) h
  simp only [decide_eq_true_eq] at before ⊢
  exact Char.lt_asymm before

theorem restrictedWords_ordered : restrictedWords.Pairwise fun a b => isBefore a.1 b.1 = true := by
  decide +kernel

/-! ## The search -/

/-- If the search is told of each place whether it is behind the right one, it comes to that. -/
theorem narrow_eq {isBehind : Nat → Bool} {start size place : Nat}
    (tells : ∀ i, start ≤ i → i < start + size → (isBehind i = true ↔ place < i))
    (above : start ≤ place) (below : place < start + size) :
    narrow isBehind start size = place := by
  fun_induction narrow isBehind start size with
  | case1 start size small => omega
  | case2 start size large middle ih =>
    have told := tells middle (by omega) (by omega)
    cases h : isBehind middle with
    | true =>
      have := told.1 h
      rw [h, cond_true] at ih
      rw [cond_true]
      exact ih (fun i hi _ => tells i hi (by omega)) above (by omega)
    | false =>
      have : ¬ place < middle := fun later => by simp [told.2 later] at h
      rw [h, cond_false] at ih
      rw [cond_false]
      exact ih (fun i _ _ => tells i (by omega) (by omega)) (by omega) (by omega)

/-- The search for a word of the table comes to its place. -/
theorem narrow_restrictedWords {place : Nat} {word hint : String}
    (here : restrictedWords[place]? = some (word, hint)) :
    narrow (fun i => restrictedWords[i]?.any fun entry => isBefore word entry.1) 0
      restrictedWords.length = place := by
  obtain ⟨below, here⟩ := List.getElem?_eq_some_iff.1 here
  have ordered := List.pairwise_iff_getElem.1 restrictedWords_ordered
  refine narrow_eq (fun i _ hi => ?_) (Nat.zero_le _) (by omega)
  rw [Nat.zero_add] at hi
  rw [List.getElem?_eq_getElem hi, Option.any_some]
  constructor
  · intro before
    apply Nat.lt_of_not_le
    intro le
    rcases Nat.lt_or_eq_of_le le with earlier | rfl
    · have := isBefore_asymm (ordered i place hi below earlier)
      rw [here] at this
      exact absurd before (by simpa using this)
    · rw [here] at before
      exact absurd before (by simp [isBefore_irrefl])
  · intro later
    have := ordered place i below hi later
    rwa [here] at this

/-- A word is found with its hint if and only if the table has it. -/
theorem restrictedHint?_eq_some_iff {word hint : String} :
    restrictedHint? word = some hint ↔ (word, hint) ∈ restrictedWords := by
  unfold restrictedHint?
  dsimp only
  constructor
  · intro found
    split at found
    · next entry hint' at_ =>
      split at found
      · next same =>
        cases found
        subst same
        exact List.mem_of_getElem? at_
      · cases found
    · cases found
  · intro mem
    obtain ⟨place, here⟩ := List.mem_iff_getElem?.1 mem
    rw [narrow_restrictedWords here, here]
    simp

end BraceScript
