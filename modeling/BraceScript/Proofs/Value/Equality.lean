-- What strict equality decides: whether two values unfold to the same tree,
-- also where arrays contain themselves. A tree without an end is compared
-- through a relation that holds between all the places that are met in it.
import BraceScript.Proofs.Value.Reach
import BraceScript.Value.Equality
import Mathlib

namespace BraceScript

namespace Heap

variable {h : Heap} {started : List (ℕ × ℕ)} {a b c : Value} {R S : Value → Value → Prop}

/-! ## Equal unfoldings -/

/-- The values are alike at first sight, and what they hold is related. Two numbers are alike if
they compare as equal, so a NaN is like nothing. -/
inductive Alike (h : Heap) (R : Value → Value → Prop) : Value → Value → Prop where
  | number {x y} : (x == y) = true → Alike h R (.number x) (.number y)
  | text {s} : Alike h R (.text s) (.text s)
  | boolean {p} : Alike h R (.boolean p) (.boolean p)
  | void : Alike h R .void .void
  | same {i} : Alike h R (.array i) (.array i)
  | items {i j} : List.Forall₂ R (h.items i).toList (h.items j).toList →
    Alike h R (.array i) (.array j)

/-- A relation that holds only between values that are alike, all the way down. -/
def Matching (h : Heap) (R : Value → Value → Prop) : Prop := ∀ a b, R a b → h.Alike R a b

/-- The two values unfold alike: some matching relation holds between them. -/
def UnfoldAlike (h : Heap) (a b : Value) : Prop := ∃ R, h.Matching R ∧ R a b

theorem Alike.mono (imp : ∀ a b, R a b → S a b) (alike : h.Alike R a b) : h.Alike S a b := by
  cases alike with
  | number eq => exact .number eq
  | text => exact .text
  | boolean => exact .boolean
  | void => exact .void
  | same => exact .same
  | items related => exact .items (related.imp imp)

/-- To unfold alike is the widest matching relation. -/
theorem matching_unfoldAlike (h : Heap) : h.Matching h.UnfoldAlike := by
  rintro a b ⟨R, matching, related⟩
  exact (matching a b related).mono fun a b related => ⟨R, matching, related⟩

theorem UnfoldAlike.symm (alike : h.UnfoldAlike a b) : h.UnfoldAlike b a := by
  refine ⟨fun x y => h.UnfoldAlike y x, fun x y alike => ?_, alike⟩
  cases h.matching_unfoldAlike y x alike with
  | number eq => exact .number (BEq.symm eq)
  | text => exact .text
  | boolean => exact .boolean
  | void => exact .void
  | same => exact .same
  | items related => exact .items related.flip

theorem forall₂_comp {as bs cs : List Value} (first : List.Forall₂ R as bs)
    (second : List.Forall₂ S bs cs) : List.Forall₂ (Relation.Comp R S) as cs := by
  induction first generalizing cs with
  | nil =>
    cases second
    exact .nil
  | cons related _ ih =>
    cases second with
    | cons related' rest => exact .cons ⟨_, related, related'⟩ (ih rest)

/-- One array counts as alike to itself whatever it holds, so one of the two steps may be left
out. -/
theorem UnfoldAlike.trans (first : h.UnfoldAlike a b) (second : h.UnfoldAlike b c) :
    h.UnfoldAlike a c := by
  refine ⟨fun x z => h.UnfoldAlike x z ∨ Relation.Comp h.UnfoldAlike h.UnfoldAlike x z, ?_,
    .inr ⟨b, first, second⟩⟩
  have one {x z : Value} (alike : h.UnfoldAlike x z) := (h.matching_unfoldAlike x z alike).mono
    (S := fun x z => h.UnfoldAlike x z ∨ Relation.Comp h.UnfoldAlike h.UnfoldAlike x z)
    fun _ _ => .inl
  rintro x z (alike | ⟨y, first, second⟩)
  · exact one alike
  cases h.matching_unfoldAlike x y first with
  | number eq =>
    cases h.matching_unfoldAlike _ z second with
    | number eq' => exact .number (BEq.trans eq eq')
  | text => exact one second
  | boolean => exact one second
  | void => exact one second
  | same => exact one second
  | items related =>
    cases h.matching_unfoldAlike _ z second with
    | same => exact one first
    | items related' => exact .items ((forall₂_comp related related').imp fun _ _ => .inr)

/-! ## The comparison without a bound -/

/-- The pairs of arrays whose comparison has not begun. -/
def notBegun (h : Heap) (started : List (ℕ × ℕ)) : Finset (ℕ × ℕ) :=
  unmet (Finset.range h.size ×ˢ Finset.range h.size) started

theorem card_notBegun_lt {i j : ℕ} {p : Value × Value}
    (mem : p ∈ (h.items i).toList.zip (h.items j).toList) (new : (i, j) ∉ started) :
    (h.notBegun ((i, j) :: started)).card < (h.notBegun started).card := by
  obtain ⟨left, right⟩ := List.of_mem_zip mem
  exact card_unmet_lt (by simp [lt_size_of_mem left, lt_size_of_mem right]) new

/-- The comparison of two values, as deep as it goes. It ends because there are only finitely
many pairs of arrays whose comparison can begin. -/
def equalFrom (h : Heap) (started : List (ℕ × ℕ)) : Value → Value → Bool
  | .number x, .number y => x == y
  | .text s, .text t => s == t
  | .boolean p, .boolean q => p == q
  | .void, .void => true
  | .array i, .array j =>
    if i = j then true
    else if (i, j) ∈ started then true
    else if h.lengthOf i ≠ h.lengthOf j then false
    else ((h.items i).toList.zip (h.items j).toList).attach.all fun ⟨pair, _⟩ =>
      equalFrom h ((i, j) :: started) pair.1 pair.2
  | _, _ => false
termination_by (h.notBegun started).card
decreasing_by exact card_notBegun_lt ‹_› ‹_›

theorem equalFrom_array {i j : ℕ} : h.equalFrom started (.array i) (.array j) = true ↔
    i = j ∨ (i, j) ∈ started ∨ h.lengthOf i = h.lengthOf j ∧
      ∀ p ∈ (h.items i).toList.zip (h.items j).toList,
        h.equalFrom ((i, j) :: started) p.1 p.2 = true := by
  rw [equalFrom]
  by_cases same : i = j
  · simp [same]
  by_cases begun : (i, j) ∈ started
  · simp [begun]
  by_cases lengths : h.lengthOf i = h.lengthOf j
  · simp [same, begun, lengths]
  · simp [same, begun, lengths]

/-- The bound that is put on the depth is not met. -/
theorem equalWithin_eq_equalFrom {depth : ℕ} (enough : (h.notBegun started).card + 2 ≤ depth) :
    h.equalWithin depth started a b = h.equalFrom started a b := by
  induction depth generalizing started a b with
  | zero => omega
  | succ depth ih =>
    cases a <;> cases b <;> try (unfold equalWithin equalFrom; rfl)
    next i j =>
      rw [Bool.eq_iff_iff, equalFrom_array, equalWithin]
      by_cases begun : (i, j) ∈ started
      · simp [begun]
      have deeper : ∀ p ∈ (h.items i).toList.zip (h.items j).toList,
          h.equalWithin depth ((i, j) :: started) p.1 p.2 =
            h.equalFrom ((i, j) :: started) p.1 p.2 := by
        intro p mem
        have := card_notBegun_lt mem begun
        exact ih (by omega)
      simp only [begun, Bool.or_eq_true, Bool.and_eq_true, beq_iff_eq, List.contains_iff_mem,
        List.all_eq_true, false_or, or_false]
      rw [forall₂_congr fun p mem => by rw [deeper p mem]]

theorem strictEq_eq_equalFrom (h : Heap) (a b : Value) : h.strictEq a b = h.equalFrom [] a b := by
  refine equalWithin_eq_equalFrom (Nat.add_le_add_right ?_ 2)
  calc (h.notBegun []).card ≤ _ := card_unmet_le _ _
    _ = h.size * h.size := by simp

/-! ### What it finds -/

/-- The two values are arrays whose comparison has begun. -/
inductive Begun (started : List (ℕ × ℕ)) : Value → Value → Prop where
  | pair {i j} : (i, j) ∈ started → Begun started (.array i) (.array j)

/-- The two values unfold alike if the pairs of arrays whose comparison has begun do. -/
def AlikeUpTo (h : Heap) (started : List (ℕ × ℕ)) (a b : Value) : Prop :=
  ∃ R : Value → Value → Prop,
    (∀ x y, R x y → h.Alike (fun x y => R x y ∨ Begun started x y) x y) ∧ R a b

theorem not_begun_nil : ¬Begun [] a b := by
  rintro @⟨_, _, mem⟩
  cases mem

theorem AlikeUpTo.alike (upTo : h.AlikeUpTo started a b) :
    h.Alike (fun x y => h.AlikeUpTo started x y ∨ Begun started x y) a b := by
  obtain ⟨R, matching, related⟩ := upTo
  exact (matching a b related).mono fun x y => Or.imp_left fun related => ⟨R, matching, related⟩

/-- Values that are alike and hold nothing. -/
theorem Alike.upTo (alike : h.Alike (fun _ _ => False) a b) : h.AlikeUpTo started a b := by
  refine ⟨fun x y => x = a ∧ y = b, ?_, rfl, rfl⟩
  rintro x y ⟨rfl, rfl⟩
  exact alike.mono fun _ _ => False.elim

/-- What has been taken for granted while the items of two arrays were compared comes true with
the comparison of the two. -/
theorem alikeUpTo_of_items {i j : ℕ}
    (items : List.Forall₂ (fun x y => h.AlikeUpTo ((i, j) :: started) x y ∨
      Begun ((i, j) :: started) x y) (h.items i).toList (h.items j).toList) :
    h.AlikeUpTo started (.array i) (.array j) := by
  let R (x y : Value) : Prop := x = .array i ∧ y = .array j ∨ h.AlikeUpTo ((i, j) :: started) x y
  have settled : ∀ x y, h.AlikeUpTo ((i, j) :: started) x y ∨ Begun ((i, j) :: started) x y →
      R x y ∨ Begun started x y := by
    rintro x y (upTo | begun)
    · exact .inl (.inr upTo)
    cases begun with
    | pair mem =>
      obtain this | earlier := List.mem_cons.mp mem
      · cases this
        exact .inl (.inl ⟨rfl, rfl⟩)
      · exact .inr ⟨earlier⟩
  refine ⟨R, ?_, .inl ⟨rfl, rfl⟩⟩
  rintro x y (⟨rfl, rfl⟩ | upTo)
  · exact .items (items.imp settled)
  · exact upTo.alike.mono settled

theorem alikeUpTo_of_equalFrom (equal : h.equalFrom started a b = true) :
    h.AlikeUpTo started a b ∨ Begun started a b := by
  fun_induction equalFrom h started a b with
  | case1 => exact .inl (Alike.number equal).upTo
  | case2 =>
    obtain rfl := eq_of_beq equal
    exact .inl Alike.text.upTo
  | case3 =>
    obtain rfl := eq_of_beq equal
    exact .inl Alike.boolean.upTo
  | case4 => exact .inl Alike.void.upTo
  | case5 => exact .inl Alike.same.upTo
  | case6 _ _ _ _ begun => exact .inr ⟨begun⟩
  | case7 => cases equal
  | case8 started i j _ _ lengths ih =>
    refine .inl (alikeUpTo_of_items (List.forall₂_iff_zip.mpr ⟨?_, fun mem => ih _ mem ?_⟩))
    · simpa [lengthOf] using lengths
    · exact List.all_eq_true.mp equal ⟨_, mem⟩ (List.mem_attach _ _)
  | case9 => cases equal

theorem unfoldAlike_of_alikeUpTo (upTo : h.AlikeUpTo [] a b) : h.UnfoldAlike a b := by
  obtain ⟨R, matching, related⟩ := upTo
  refine ⟨R, fun x y related => (matching x y related).mono fun x y => ?_, related⟩
  exact (·.resolve_right not_begun_nil)

theorem equalFrom_of_unfoldAlike (alike : h.UnfoldAlike a b) : h.equalFrom started a b = true := by
  fun_induction equalFrom h started a b with
  | case1 => cases h.matching_unfoldAlike _ _ alike; assumption
  | case2 => cases h.matching_unfoldAlike _ _ alike; exact beq_self_eq_true _
  | case3 => cases h.matching_unfoldAlike _ _ alike; exact beq_self_eq_true _
  | case4 | case5 | case6 => rfl
  | case7 _ _ _ differ _ lengths =>
    cases h.matching_unfoldAlike _ _ alike with
    | same => exact absurd rfl differ
    | items related => exact absurd (by simpa [lengthOf] using related.length_eq) lengths
  | case8 _ _ _ differ _ _ ih =>
    cases h.matching_unfoldAlike _ _ alike with
    | same => exact absurd rfl differ
    | items related =>
      refine List.all_eq_true.mpr ?_
      rintro ⟨p, mem⟩ -
      exact ih p mem (List.forall₂_zip related mem)
  | case9 _ _ _ noNumbers noTexts noBooleans noVoids noArrays =>
    cases h.matching_unfoldAlike _ _ alike with
    | number => exact (noNumbers _ _ rfl rfl).elim
    | text => exact (noTexts _ _ rfl rfl).elim
    | boolean => exact (noBooleans _ _ rfl rfl).elim
    | void => exact (noVoids rfl rfl).elim
    | same | items => exact (noArrays _ _ rfl rfl).elim

theorem strictEq_iff : h.strictEq a b = true ↔ h.UnfoldAlike a b := by
  rw [strictEq_eq_equalFrom]
  refine ⟨fun equal => ?_, equalFrom_of_unfoldAlike⟩
  exact unfoldAlike_of_alikeUpTo ((alikeUpTo_of_equalFrom equal).resolve_right not_begun_nil)

/-! ## The laws of equality -/

theorem strictEq_comm (h : Heap) (a b : Value) : h.strictEq a b = h.strictEq b a := by
  rw [Bool.eq_iff_iff, strictEq_iff, strictEq_iff]
  exact ⟨UnfoldAlike.symm, UnfoldAlike.symm⟩

theorem looseEq_comm (h : Heap) (a b : Value) : h.looseEq a b = h.looseEq b a := by
  cases a <;> cases b <;> first | exact BEq.comm | exact h.strictEq_comm _ _

/-- No number in the value, at any depth, is NaN. -/
def FreeOfNaN (h : Heap) (v : Value) : Prop := ∀ x, h.Inside v (.number x) → x.isNaN = false

theorem FreeOfNaN.unfoldAlike_self (free : h.FreeOfNaN a) : h.UnfoldAlike a a := by
  refine ⟨fun x y => x = a ∧ y = a, fun x y both => ?_, rfl, rfl⟩
  rw [both.1, both.2]
  cases a with
  | number x =>
    have known := free x .refl
    rw [Float.isNaN_eq_decide_eq_nan, decide_eq_false_iff_not] at known
    exact .number (Float.beq_self_iff.mpr known)
  | text => exact .text
  | boolean => exact .boolean
  | void => exact .void
  | array => exact .same

/-- Two values are strictly equal if and only if a relation holds between them that holds only
between equal scalars of one kind and between arrays that are one array, or are of one length and
have related items: so arrays that contain themselves are equal if they unfold alike. The
comparison comes to its end by itself, without the bound on its depth. It makes no difference in
which order the two values are compared, also loosely; and strict equality of values without NaN
is an equivalence. -/
theorem strict_equality_is_that_of_the_unfoldings (h : Heap) :
    (∀ a b, h.strictEq a b = h.equalFrom [] a b) ∧
    (∀ a b, h.strictEq a b = true ↔ ∃ R : Value → Value → Prop,
      (∀ x y, R x y → h.Alike R x y) ∧ R a b) ∧
    (∀ a b, h.strictEq a b = h.strictEq b a ∧ h.looseEq a b = h.looseEq b a) ∧
    Equivalence fun a b : {v // h.FreeOfNaN v} => h.strictEq a b = true := by
  refine ⟨h.strictEq_eq_equalFrom, fun a b => strictEq_iff,
    fun a b => ⟨h.strictEq_comm a b, h.looseEq_comm a b⟩, ?_, ?_, ?_⟩
  · exact fun v => strictEq_iff.mpr v.property.unfoldAlike_self
  · intro v w equal
    rwa [strictEq_comm]
  · intro u v w first second
    exact strictEq_iff.mpr ((strictEq_iff.mp first).trans (strictEq_iff.mp second))

/-- An array whose one item is itself equals one that holds another such array. -/
example : (⟨#[#[.array 0], #[.array 2], #[.array 1]]⟩ : Heap).strictEq (.array 0) (.array 1) =
    true := by
  decide

end Heap

end BraceScript
