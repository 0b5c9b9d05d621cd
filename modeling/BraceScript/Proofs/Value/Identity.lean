-- What it means for strict equality that an array counts as equal to itself
-- without a look at its items. It is a shortcut as long as there is no NaN in
-- the array, at any depth. Item by item, an array with a NaN in it equals
-- nothing, not even itself.
import BraceScript.Proofs.Value.Equality

namespace BraceScript

/-! ## The last visit -/

/-- What leads away from a place leads away from it for good after the last time that it is
there. -/
theorem exists_last_visit {α : Type} {r : α → α → Prop} {a c : α}
    (path : Relation.ReflTransGen r a c) (ne : a ≠ c) :
    ∃ b, r a b ∧ Relation.ReflTransGen (fun x y => r x y ∧ x ≠ a) b c := by
  induction path with
  | refl => exact absurd rfl ne
  | @tail b c _ step ih =>
    by_cases again : a = b
    · subst again
      exact ⟨c, step, .refl⟩
    · obtain ⟨first, begins, onward⟩ := ih again
      exact ⟨first, begins, onward.tail ⟨step, fun same => again same.symm⟩⟩

namespace Heap

variable {h : Heap} {started : List (ℕ × ℕ)} {a b : Value}

/-! ## The comparison without the shortcut -/

/-- The comparison of two values item by item. An array may be compared with itself like with any
other one; only a pair of arrays whose comparison has begun counts as equal inside of it. -/
def equalByItems (h : Heap) (started : List (ℕ × ℕ)) : Value → Value → Bool
  | .number x, .number y => x == y
  | .text s, .text t => s == t
  | .boolean p, .boolean q => p == q
  | .void, .void => true
  | .array i, .array j =>
    if (i, j) ∈ started then true
    else if h.lengthOf i ≠ h.lengthOf j then false
    else ((h.items i).toList.zip (h.items j).toList).attach.all fun ⟨pair, _⟩ =>
      equalByItems h ((i, j) :: started) pair.1 pair.2
  | _, _ => false
termination_by (h.notBegun started).card
decreasing_by exact card_notBegun_lt ‹_› ‹_›

/-- With the shortcut no fewer values are equal. -/
theorem equalFrom_of_equalByItems (equal : h.equalByItems started a b = true) :
    h.equalFrom started a b = true := by
  fun_induction equalByItems h started a b with
  | case1 | case2 | case3 => unfold equalFrom; exact equal
  | case4 => unfold equalFrom; rfl
  | case5 _ _ _ begun => exact equalFrom_array.mpr (.inr (.inl begun))
  | case6 => cases equal
  | case7 started i j _ lengths ih =>
    refine equalFrom_array.mpr (.inr (.inr ⟨not_not.mp lengths, fun p mem => ih p mem ?_⟩))
    exact List.all_eq_true.mp equal ⟨p, mem⟩ (List.mem_attach _ _)
  | case8 => cases equal

/-! ## Where a NaN is met -/

/-- The second value lies in the first one, on a way that does not lead through these arrays. -/
def InsideApart (h : Heap) (met : List ℕ) (v w : Value) : Prop :=
  Relation.ReflTransGen (fun x y => h.Has x y ∧ ∀ i ∈ met, x ≠ .array i) v w

theorem insideApart_nil {v w : Value} : h.InsideApart [] v w ↔ h.Inside v w := by
  simp [InsideApart, Inside]

/-- What lies in an array lies in one of its items, on a way that does not lead through it. -/
theorem InsideApart.exists_item {met : List ℕ} {i : ℕ} {x : Float}
    (inside : h.InsideApart met (.array i) (.number x)) :
    i ∉ met ∧ ∃ w ∈ (h.items i).toList, h.InsideApart (i :: met) w (.number x) := by
  obtain ⟨w, ⟨⟨_, same, mem⟩, apart⟩, onward⟩ := exists_last_visit inside (by simp)
  cases same
  refine ⟨fun old => apart i old rfl, w, mem, onward.lift id ?_⟩
  rintro v _ ⟨⟨has, apart⟩, ne⟩
  exact ⟨has, List.forall_mem_cons.mpr ⟨ne, apart⟩⟩

theorem fst_mem_of_begun {i j : ℕ} (begun : (i, j) ∈ started) : i ∈ started.map Prod.fst :=
  List.mem_map.mpr ⟨_, begun, rfl⟩

/-- Values that are equal item by item have no NaN that the comparison could have met. -/
theorem not_isNaN_of_equalByItems {x : Float} (equal : h.equalByItems started a b = true)
    (inside : h.InsideApart (started.map Prod.fst) a (.number x)) : x.isNaN = false := by
  have scalar {v : Value} {met : List ℕ} (noArray : ∀ k, v ≠ .array k)
      (inside : h.InsideApart met v (.number x)) : v = .number x := by
    obtain same | ⟨_, ⟨⟨k, same, _⟩, _⟩, _⟩ := Relation.ReflTransGen.cases_head inside
    · exact same
    · exact absurd same (noArray k)
  fun_induction equalByItems h started a b with
  | case1 _ y z =>
    obtain rfl : y = x := by simpa using scalar (by simp) inside
    rw [Float.isNaN_eq_decide_eq_nan, decide_eq_false_iff_not]
    rintro rfl
    simp at equal
  | case2 | case3 | case4 => simpa using scalar (by simp) inside
  | case5 _ i j begun => exact absurd (fst_mem_of_begun begun) inside.exists_item.1
  | case6 => cases equal
  | case7 started i j _ lengths ih =>
    obtain ⟨-, w, mem, onward⟩ := inside.exists_item
    -- the arrays are of one length, so the item is compared with one of the other array
    have lengths : (h.items i).toList.length = (h.items j).toList.length := not_not.mp lengths
    rw [← List.map_fst_zip lengths.le] at mem
    obtain ⟨p, inZip, rfl⟩ := List.mem_map.mp mem
    exact ih p inZip (List.all_eq_true.mp equal ⟨p, inZip⟩ (List.mem_attach _ _)) onward
  | case8 => cases equal

/-! ## When the shortcut is one -/

/-- What a list is compared with itself by: every item with itself. -/
theorem mem_zip_self_iff {as : List Value} {p : Value × Value} :
    p ∈ as.zip as ↔ p.1 ∈ as ∧ p.1 = p.2 := by
  have paired : as.zip as = as.map fun v => (v, v) := by
    simpa using List.zip_map' (f := id) (g := id) (l := as)
  rw [paired, List.mem_map]
  constructor
  · rintro ⟨v, mem, rfl⟩
    exact ⟨mem, rfl⟩
  · rintro ⟨mem, same⟩
    exact ⟨p.1, mem, Prod.ext rfl same⟩

/-- In a value without NaN an array would be found equal to itself. -/
theorem equalByItems_of_unfoldAlike (alike : h.UnfoldAlike a b) (free : h.FreeOfNaN a) :
    h.equalByItems started a b = true := by
  fun_induction equalByItems h started a b with
  | case1 => cases h.matching_unfoldAlike _ _ alike; assumption
  | case2 => cases h.matching_unfoldAlike _ _ alike; exact beq_self_eq_true _
  | case3 => cases h.matching_unfoldAlike _ _ alike; exact beq_self_eq_true _
  | case4 | case5 => rfl
  | case6 _ _ _ _ lengths =>
    cases h.matching_unfoldAlike _ _ alike with
    | same => exact absurd rfl lengths
    | items related => exact absurd (by simpa [lengthOf] using related.length_eq) lengths
  | case7 _ i j _ _ ih =>
    refine List.all_eq_true.mpr ?_
    rintro ⟨p, mem⟩ -
    have freeItem : h.FreeOfNaN p.1 := fun x inside =>
      free x (.head ⟨i, rfl, (List.of_mem_zip mem).1⟩ inside)
    refine ih p mem ?_ freeItem
    cases h.matching_unfoldAlike _ _ alike with
    | same =>
      -- the items of one array are compared with themselves
      exact (mem_zip_self_iff.mp mem).2 ▸ freeItem.unfoldAlike_self
    | items related => exact List.forall₂_zip related mem
  | case8 _ _ _ noNumbers noTexts noBooleans noVoids noArrays =>
    cases h.matching_unfoldAlike _ _ alike with
    | number => exact (noNumbers _ _ rfl rfl).elim
    | text => exact (noTexts _ _ rfl rfl).elim
    | boolean => exact (noBooleans _ _ rfl rfl).elim
    | void => exact (noVoids rfl rfl).elim
    | same | items => exact (noArrays _ _ rfl rfl).elim

theorem equalByItems_iff :
    h.equalByItems [] a b = true ↔ h.strictEq a b = true ∧ h.FreeOfNaN a := by
  refine ⟨fun equal => ⟨?_, fun x inside => ?_⟩, fun ⟨equal, free⟩ => ?_⟩
  · rw [strictEq_eq_equalFrom]
    exact equalFrom_of_equalByItems equal
  · exact not_isNaN_of_equalByItems equal (insideApart_nil.mpr inside)
  · exact equalByItems_of_unfoldAlike (strictEq_iff.mp equal) free

/-! ## Copies -/

/-- A value equals itself unless it is a NaN. -/
theorem equalFrom_self_iff :
    h.equalFrom started a a = true ↔ ∀ x, a = .number x → x.isNaN = false := by
  cases a with
  | number x =>
    rw [equalFrom, Float.beq_self_iff]
    simp [Float.isNaN_eq_decide_eq_nan]
  | array i => simp [equalFrom_array]
  | text | boolean | void => simp [equalFrom]

/-- An array equals a new one with the same items unless one of these is a NaN. Where an item is
an array, it is the same one in both, and not looked at. -/
theorem strictEq_copy_iff (h : Heap) (i : ℕ) :
    (h.alloc (h.items i).toList).2.strictEq (.array i)
        (.array (h.alloc (h.items i).toList).1) = true ↔
      ∀ x, .number x ∈ (h.items i).toList → x.isNaN = false := by
  have items (j : ℕ) := h.items_alloc (h.items i).toList j
  have apart (v) (mem : v ∈ (h.items i).toList) : i ≠ (h.alloc (h.items i).toList).1 :=
    (lt_size_of_mem mem).ne
  generalize h.alloc (h.items i).toList = new at *
  obtain ⟨copy, h'⟩ := new
  simp only [Array.toArray_toList] at items apart
  have old : h'.items i = h.items i := by simp [items]
  have new : h'.items copy = h.items i := by simp [items]
  rw [strictEq_eq_equalFrom, equalFrom_array]
  simp only [lengthOf, old, new, List.not_mem_nil, false_or, true_and]
  constructor
  · rintro equal x mem
    obtain same | equal := equal
    · exact absurd same (apart _ mem)
    · have itself := equal (.number x, .number x) (mem_zip_self_iff.mpr ⟨mem, rfl⟩)
      exact equalFrom_self_iff.mp itself x rfl
  · intro numbers
    refine .inr fun p mem => ?_
    obtain ⟨mem, same⟩ := mem_zip_self_iff.mp mem
    rw [← same]
    exact equalFrom_self_iff.mpr fun x number => numbers x (number ▸ mem)

/-- An array that is compared with itself is not looked at, and this is all that tells strict
equality from a comparison item by item. The two agree except on values that are strictly equal
and have a NaN in the first one, at some depth: these are not equal item by item. In particular
an array always equals itself, and equals a copy of itself with the same items if and only if
none of these is a NaN. -/
theorem only_a_nan_tells_an_array_from_its_copy (h : Heap) :
    (∀ a b, h.equalByItems [] a b = true ↔
      h.strictEq a b = true ∧ ∀ x, h.Inside a (.number x) → x.isNaN = false) ∧
    (∀ a b, h.strictEq a b ≠ h.equalByItems [] a b ↔
      h.strictEq a b = true ∧ ∃ x, h.Inside a (.number x) ∧ x.isNaN = true) ∧
    ∀ i copy h', h.alloc (h.items i).toList = (copy, h') →
      h'.strictEq (.array i) (.array i) = true ∧
      (h'.strictEq (.array i) (.array copy) = true ↔
        ∀ x, .number x ∈ (h.items i).toList → x.isNaN = false) := by
  refine ⟨fun a b => equalByItems_iff, fun a b => ?_, ?_⟩
  · have decided := equalByItems_iff (h := h) (a := a) (b := b)
    have nan : (∃ x, h.Inside a (.number x) ∧ x.isNaN = true) ↔ ¬h.FreeOfNaN a := by
      simp [FreeOfNaN]
    rw [nan]
    by_cases equal : h.strictEq a b = true
    · by_cases free : h.FreeOfNaN a
      · simp [equal, free, decided.mpr ⟨equal, free⟩]
      · have differ : h.equalByItems [] a b ≠ true := fun found => free (decided.mp found).2
        simp [equal, free, differ]
    · have differ : h.equalByItems [] a b ≠ true := fun found => equal (decided.mp found).1
      simp [equal, differ]
  · intro i copy h' made
    refine ⟨?_, ?_⟩
    · rw [strictEq_eq_equalFrom]
      exact equalFrom_self_iff.mpr nofun
    · have copied := h.strictEq_copy_iff i
      rwa [made] at copied

/-- Of the arrays `[NaN]` and `[[NaN]]`, both equal themselves, and neither does item by item. The
copy of the first one has another NaN in its place and does not equal it; the copy of the second
one holds the very array that this one holds, and equals it. -/
theorem an_array_of_nan_is_told_from_its_copy :
    let h : Heap := ⟨#[#[.number Number.nan], #[.array 0]]⟩
    (h.strictEq (.array 0) (.array 0) = true ∧ h.equalByItems [] (.array 0) (.array 0) = false) ∧
    (h.strictEq (.array 1) (.array 1) = true ∧ h.equalByItems [] (.array 1) (.array 1) = false) ∧
    (h.alloc (h.items 0).toList).2.strictEq (.array 0) (.array 2) = false ∧
    (h.alloc (h.items 1).toList).2.strictEq (.array 1) (.array 2) = true := by
  intro h
  obtain ⟨byItems, -, copies⟩ := only_a_nan_tells_an_array_from_its_copy h
  have inOne : h.Inside (.array 0) (.number Number.nan) := .single ⟨0, rfl, by simp [h, items]⟩
  have inBoth : h.Inside (.array 1) (.number Number.nan) :=
    .head ⟨1, rfl, by simp [h, items]⟩ inOne
  have apart {a b : Value} (inside : h.Inside a (.number Number.nan)) :
      h.equalByItems [] a b = false := by
    rw [Bool.eq_false_iff]
    intro equal
    exact absurd (((byItems a b).mp equal).2 _ inside) (by decide)
  refine ⟨⟨by decide, apart inOne⟩, ⟨by decide, apart inBoth⟩, ?_, ?_⟩
  · rw [Bool.eq_false_iff]
    intro equal
    exact absurd ((copies 0 2 _ rfl).2.mp equal Number.nan (by simp [h, items])) (by decide)
  · exact (copies 1 2 _ rfl).2.mpr (by simp [h, items])

end Heap

end BraceScript
