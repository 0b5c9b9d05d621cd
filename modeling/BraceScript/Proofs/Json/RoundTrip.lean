-- Values through JSON and back: a value of finite numbers in which no array
-- contains itself has a text, and the text is read as an equal value, unless
-- its arrays nest deeper than a text may.
import BraceScript.Proofs.Json.Documents
import BraceScript.Proofs.Value.Handles
import BraceScript.Value.Equality
import Mathlib

namespace BraceScript

namespace Heap

/-! ## What a value is made of -/

variable {h h' : Heap} {v w : Value}

/-- The value consists of finite numbers, texts, truth values, `void` and
arrays of the heap, none of which contains itself. -/
structure Plain (h : Heap) (v : Value) : Prop where
  exist : ∀ i, h.Inside v (.array i) → i < h.size
  acyclic : ∀ w, h.Inside v w → ¬Relation.TransGen h.Has w w
  finite : ∀ x, h.Inside v (.number x) → x.isFinite = true

theorem Plain.of_has (plain : h.Plain v) (has : h.Has v w) : h.Plain w :=
  ⟨fun i inside => plain.exist i (.head has inside),
    fun u inside => plain.acyclic u (.head has inside),
    fun x inside => plain.finite x (.head has inside)⟩

/-- The value is an array, with at least so many more arrays inside one another
in it. -/
def DeeperThan (h : Heap) : ℕ → Value → Prop
  | 0, v => ∃ i, v = .array i
  | n + 1, v => ∃ w, h.Has v w ∧ h.DeeperThan n w

/-! ## Values and their documents -/

mutual

/-- The document says what the value is, arrays by their elements. -/
def Spells (h : Heap) (v : Value) : Json → Prop
  | .null => v = .void
  | .boolean b => v = .boolean b
  | .number x => v = .number x
  | .text s => v = .text s
  | .array js => ∃ i < h.size, v = .array i ∧ SpellsAll h (h.items i).toList js
  | .object => False

def SpellsAll (h : Heap) (vs : List Value) : List Json → Prop
  | [] => vs = []
  | j :: js => ∃ w ws, vs = w :: ws ∧ h.Spells w j ∧ h.SpellsAll ws js

end

theorem spellsAll_mapM {f : Value → Option Json} : (ws : List Value) →
    (∀ w ∈ ws, ∃ j, f w = some j ∧ h.Spells w j) → ∃ js, ws.mapM f = some js ∧ h.SpellsAll ws js
  | [], _ => ⟨[], rfl, rfl⟩
  | w :: ws, all => by
    obtain ⟨j, found, spells⟩ := all w List.mem_cons_self
    obtain ⟨js, others, spellsAll⟩ :=
      spellsAll_mapM ws fun u hu => all u (List.mem_cons_of_mem w hu)
    exact ⟨j :: js, by simp [List.mapM_cons, found, others], w, ws, rfl, spells, spellsAll⟩

/-- The arrays on the way to a plain value are different ones, so the levels
that a document may have are not used up. -/
theorem documentWithin_of_plain {depth : ℕ} {entered : List ℕ} (plain : h.Plain v)
    (different : entered.Nodup)
    (around : ∀ k ∈ entered, k < h.size ∧ Relation.TransGen h.Has (.array k) v)
    (levels : depth + entered.length = h.size + 2) :
    ∃ j, h.documentWithin none depth entered v = some j ∧ h.Spells v j := by
  induction depth generalizing entered v with
  | zero =>
    have few : entered.length ≤ h.size := by
      have known : entered ⊆ List.range h.size := fun k hk => List.mem_range.mpr (around k hk).1
      simpa using (different.subperm known).length_le
    omega
  | succ depth ih =>
    cases v with
    | number x => exact ⟨_, rfl, rfl⟩
    | text s => exact ⟨_, rfl, rfl⟩
    | boolean b => exact ⟨_, rfl, rfl⟩
    | void => exact ⟨_, rfl, rfl⟩
    | array i =>
      have new : i ∉ entered := fun old => plain.acyclic _ .refl (around i old).2
      have exist := plain.exist i .refl
      have items : ∀ w ∈ (h.items i).toList, ∃ j,
          h.documentWithin none depth (i :: entered) w = some j ∧ h.Spells w j := by
        intro w hw
        have has : h.Has (.array i) w := ⟨i, rfl, hw⟩
        refine ih (plain.of_has has) (List.nodup_cons.mpr ⟨new, different⟩) ?_
          (by rw [List.length_cons]; omega)
        intro k hk
        obtain rfl | hk := List.mem_cons.mp hk
        · exact ⟨exist, .single has⟩
        · exact ⟨(around k hk).1, (around k hk).2.tail has⟩
      obtain ⟨js, found, spells⟩ := spellsAll_mapM _ items
      refine ⟨.array js, ?_, i, exist, rfl, spells⟩
      rw [documentWithin]
      simp [new, found]

mutual

/-- The document of a plain value is plain. -/
theorem Spells.plain : (v : Value) → (j : Json) → h.Plain v → h.Spells v j → j.Plain
  | _, .null, _, _ => trivial
  | _, .boolean _, _, _ => trivial
  | _, .text _, _, _ => trivial
  | _, .number x, plain, rfl => plain.finite x .refl
  | _, .array js, plain, ⟨i, _, eq, all⟩ =>
    SpellsAll.plain _ js (fun _ mem => plain.of_has ⟨i, eq, mem⟩) all

theorem SpellsAll.plain : (ws : List Value) → (js : List Json) → (∀ w ∈ ws, h.Plain w) →
    h.SpellsAll ws js → Json.PlainAll js
  | _, [], _, _ => trivial
  | _, j :: js, plain, ⟨w, ws, eq, spells, all⟩ => by
    subst eq
    exact ⟨Spells.plain w j (plain w List.mem_cons_self) spells,
      SpellsAll.plain ws js (fun u mem => plain u (List.mem_cons_of_mem w mem)) all⟩

end

theorem not_deeperThan {n : ℕ} (noArray : ∀ i, v ≠ .array i) : ¬h.DeeperThan n v := by
  cases n with
  | zero => exact fun ⟨i, eq⟩ => noArray i eq
  | succ n => exact fun ⟨_, ⟨i, eq, _⟩, _⟩ => noArray i eq

theorem deeperThan_succ {n i : ℕ} :
    h.DeeperThan (n + 1) (.array i) ↔ ∃ w ∈ (h.items i).toList, h.DeeperThan n w := by
  constructor
  · rintro ⟨w, ⟨_, ⟨⟩, mem⟩, deeper⟩
    exact ⟨w, mem, deeper⟩
  · rintro ⟨w, mem, deeper⟩
    exact ⟨w, ⟨i, rfl, mem⟩, deeper⟩

mutual

/-- The brackets of the document nest as the arrays of the value do. -/
theorem Spells.deeperThan_iff (n : ℕ) : (v : Value) → (j : Json) → h.Spells v j →
    (h.DeeperThan n v ↔ n < j.depth)
  | _, .null, rfl => iff_of_false (not_deeperThan (by simp)) (Nat.not_lt_zero n)
  | _, .boolean _, rfl => iff_of_false (not_deeperThan (by simp)) (Nat.not_lt_zero n)
  | _, .number _, rfl => iff_of_false (not_deeperThan (by simp)) (Nat.not_lt_zero n)
  | _, .text _, rfl => iff_of_false (not_deeperThan (by simp)) (Nat.not_lt_zero n)
  | _, .array js, ⟨i, _, rfl, all⟩ => by
    cases n with
    | zero => exact iff_of_true ⟨i, rfl⟩ (Nat.succ_pos _)
    | succ n =>
      rw [deeperThan_succ, SpellsAll.deeperThan_iff n _ js all, Json.depth, Nat.succ_lt_succ_iff]

theorem SpellsAll.deeperThan_iff (n : ℕ) : (ws : List Value) → (js : List Json) →
    h.SpellsAll ws js → ((∃ w ∈ ws, h.DeeperThan n w) ↔ n < Json.depthAll js)
  | _, [], rfl => by simp [Json.depthAll]
  | _, j :: js, ⟨w, ws, rfl, spells, all⟩ => by
    rw [List.exists_mem_cons_iff, Spells.deeperThan_iff n w j spells,
      SpellsAll.deeperThan_iff n ws js all, Json.depthAll, lt_max_iff]

end

/-! ## New arrays -/

/-- The heap has grown: the arrays that were there are as they were. -/
structure Grown (h h' : Heap) : Prop where
  size : h.size ≤ h'.size
  same : ∀ i < h.size, h'.items i = h.items i

theorem Grown.refl (h : Heap) : Grown h h := ⟨Nat.le_refl _, fun _ _ => rfl⟩

theorem Grown.trans {h'' : Heap} (first : Grown h h') (then_ : Grown h' h'') : Grown h h'' :=
  ⟨first.size.trans then_.size, fun i bound =>
    (then_.same i (bound.trans_le first.size)).trans (first.same i bound)⟩

theorem grown_alloc (h : Heap) (vs : List Value) : Grown h (h.alloc vs).2 := by
  refine ⟨by rw [size_alloc]; omega, fun i bound => ?_⟩
  rw [items_alloc, if_neg]
  exact fun new => absurd bound (by rw [new]; exact lt_irrefl _)

mutual

/-- A value keeps its document when the heap grows. -/
theorem Spells.grow (grown : Grown h h') : (v : Value) → (j : Json) → h.Spells v j → h'.Spells v j
  | _, .null, spells => spells
  | _, .boolean _, spells => spells
  | _, .number _, spells => spells
  | _, .text _, spells => spells
  | _, .array js, ⟨i, bound, eq, all⟩ =>
    ⟨i, bound.trans_le grown.size, eq, by
      rw [grown.same i bound]
      exact SpellsAll.grow grown _ js all⟩

theorem SpellsAll.grow (grown : Grown h h') : (ws : List Value) → (js : List Json) →
    h.SpellsAll ws js → h'.SpellsAll ws js
  | _, [], all => all
  | _, j :: js, ⟨w, ws, eq, spells, all⟩ =>
    ⟨w, ws, eq, Spells.grow grown w j spells, SpellsAll.grow grown ws js all⟩

end

mutual

/-- A document without objects has a value, of new arrays only. -/
theorem value?_of_plain (h : Heap) : (j : Json) → j.Plain →
    ∃ w h', j.value? h = some (w, h') ∧ Grown h h' ∧ h.size + j.depth ≤ h'.size ∧ h'.Spells w j
  | .null, _ => ⟨_, h, by rw [Json.value?], .refl h, Nat.le_refl _, rfl⟩
  | .boolean _, _ => ⟨_, h, by rw [Json.value?], .refl h, Nat.le_refl _, rfl⟩
  | .number _, _ => ⟨_, h, by rw [Json.value?], .refl h, Nat.le_refl _, rfl⟩
  | .text _, _ => ⟨_, h, by rw [Json.value?], .refl h, Nat.le_refl _, rfl⟩
  | .array js, plain => by
    obtain ⟨ws, h', values, grown, deep, all⟩ := values?_of_plain h js plain
    have last := grown_alloc h' ws
    refine ⟨.array (h'.alloc ws).1, (h'.alloc ws).2, by rw [Json.value?, values], grown.trans last,
      ?_, (h'.alloc ws).1, ?_, rfl, ?_⟩
    · rw [size_alloc, Json.depth]
      omega
    · rw [size_alloc]
      exact Nat.lt_succ_self _
    · rw [items_alloc, if_pos rfl]
      exact SpellsAll.grow last ws js all

theorem values?_of_plain (h : Heap) : (js : List Json) → Json.PlainAll js →
    ∃ ws h', Json.values? h js = some (ws, h') ∧ Grown h h' ∧
      h.size + Json.depthAll js ≤ h'.size ∧ h'.SpellsAll ws js
  | [], _ => ⟨[], h, by rw [Json.values?], .refl h, Nat.le_refl _, rfl⟩
  | j :: js, ⟨plain, plainAll⟩ => by
    obtain ⟨w, h₁, value, grown, deep, spells⟩ := value?_of_plain h j plain
    obtain ⟨ws, h₂, values, grownAll, deepAll, all⟩ := values?_of_plain h₁ js plainAll
    refine ⟨w :: ws, h₂, by rw [Json.values?, value]; simp [values], grown.trans grownAll, ?_,
      w, ws, rfl, Spells.grow grownAll w j spells, all⟩
    have := grownAll.size
    rw [Json.depthAll]
    omega

end

/-! ## Equal values -/

theorem SpellsAll.length : (ws : List Value) → (js : List Json) → h.SpellsAll ws js →
    ws.length = js.length
  | _, [], rfl => rfl
  | _, _ :: js, ⟨_, ws, rfl, _, all⟩ => congrArg (· + 1) (SpellsAll.length ws js all)

theorem length_oneZerosAll (js : List Json) : (Json.oneZerosAll js).length = js.length := by
  induction js with
  | nil => rfl
  | cons j js ih => rw [Json.oneZerosAll, List.length_cons, List.length_cons, ih]

mutual

/-- Values of one document are equal, whichever zeros they have. -/
theorem equalWithin_of_spells {depth : ℕ} (started : List (ℕ × ℕ)) : (v w : Value) → (j : Json) →
    j.Plain → h.Spells w j.oneZeros → h.Spells v j → j.depth < depth →
    h.equalWithin depth started w v = true
  | _, _, .null, _, rfl, rfl, enough => by
    obtain ⟨depth, rfl⟩ := Nat.exists_eq_add_one_of_ne_zero (Nat.ne_zero_of_lt enough)
    rfl
  | _, _, .boolean b, _, rfl, rfl, enough => by
    obtain ⟨depth, rfl⟩ := Nat.exists_eq_add_one_of_ne_zero (Nat.ne_zero_of_lt enough)
    exact beq_self_eq_true b
  | _, _, .number _, finite, rfl, rfl, enough => by
    obtain ⟨depth, rfl⟩ := Nat.exists_eq_add_one_of_ne_zero (Nat.ne_zero_of_lt enough)
    exact Json.oneZero_beq finite
  | _, _, .text s, _, rfl, rfl, enough => by
    obtain ⟨depth, rfl⟩ := Nat.exists_eq_add_one_of_ne_zero (Nat.ne_zero_of_lt enough)
    exact beq_self_eq_true s
  | _, _, .array js, plain, ⟨i, _, rfl, new⟩, ⟨k, _, rfl, old⟩, enough => by
    obtain ⟨depth, rfl⟩ := Nat.exists_eq_add_one_of_ne_zero (Nat.ne_zero_of_lt enough)
    have length : h.lengthOf i = h.lengthOf k := by
      have newLength := SpellsAll.length _ _ new
      have oldLength := SpellsAll.length _ _ old
      rwa [length_oneZerosAll, ← oldLength] at newLength
    have all := all_equalWithin_of_spells ((i, k) :: started) _ _ js plain new old
      (Nat.lt_of_succ_lt_succ enough)
    rw [equalWithin, length, all, beq_self_eq_true]
    simp

theorem all_equalWithin_of_spells {depth : ℕ} (started : List (ℕ × ℕ)) : (vs ws : List Value) →
    (js : List Json) → Json.PlainAll js → h.SpellsAll ws (Json.oneZerosAll js) → h.SpellsAll vs js →
    Json.depthAll js < depth →
    ((ws.zip vs).all fun pair => h.equalWithin depth started pair.1 pair.2) = true
  | _, _, [], _, rfl, rfl, _ => rfl
  | _, _, j :: js, plain, ⟨w, ws, eq, new, newAll⟩, ⟨v, vs, eq', old, oldAll⟩, enough => by
    subst eq eq'
    rw [Json.depthAll, max_lt_iff] at enough
    rw [List.zip_cons_cons, List.all_cons,
      equalWithin_of_spells started v w j plain.1 new old enough.1,
      all_equalWithin_of_spells started vs ws js plain.2 newAll oldAll enough.2]
    rfl

end

end Heap

/-! ## The round trip -/

theorem toJson_of_plain {h : Heap} {v : Value} (plain : h.Plain v) :
    ∃ j, h.toJson v = .ok j.write ∧ h.Spells v j ∧ j.Plain := by
  have around : ∀ k ∈ ([] : List ℕ), k < h.size ∧ Relation.TransGen h.Has (.array k) v :=
    fun k hk => absurd hk List.not_mem_nil
  obtain ⟨j, found, spells⟩ := Heap.documentWithin_of_plain plain List.nodup_nil around rfl
  exact ⟨j, by rw [Heap.toJson, Heap.document, found], spells, Heap.Spells.plain v j plain spells⟩

/-- A value of finite numbers, texts, truth values, `void` and arrays that do
not contain themselves has a JSON text. If its arrays nest at most 127 deep, the
text is read as a value that is strictly equal to it; if they nest deeper, the
reader refuses the text. -/
theorem a_value_is_read_back_unless_it_nests_too_deep (h : Heap) (v : Value) (plain : h.Plain v) :
    ∃ text, h.toJson v = .ok text ∧
      (¬h.DeeperThan 127 v → ∃ w h', h.ofJson text = .ok (w, h') ∧
        (∀ i < h.size, h'.items i = h.items i) ∧ h'.strictEq w v = true) ∧
      (h.DeeperThan 127 v → ∃ place,
        h.ofJson text = .error (.malformed ⟨.tooDeep, place⟩)) := by
  obtain ⟨j, written, spells, plainJson⟩ := toJson_of_plain plain
  obtain ⟨place, read⟩ := Json.read_write plainJson
  have deep := Heap.Spells.deeperThan_iff 127 v j spells
  refine ⟨j.write, written, fun shallow => ?_, fun deeper => ⟨place, ?_⟩⟩
  · rw [deep, not_lt] at shallow
    rw [if_pos shallow] at read
    obtain ⟨w, h', value, grown, size, new⟩ :=
      Heap.value?_of_plain h j.oneZeros (Json.Plain.oneZeros j plainJson)
    refine ⟨w, h', by rw [Heap.ofJson, read]; simp [value], grown.same, ?_⟩
    rw [Json.depth_oneZeros] at size
    have := Nat.le_mul_self h'.size
    exact Heap.equalWithin_of_spells [] v w j plainJson new (Heap.Spells.grow grown v j spells)
      (by omega)
  · rw [deep] at deeper
    rw [if_neg (by omega)] at read
    rw [Heap.ofJson, read]

namespace Heap

/-! ### A text that is refused -/

/-- Arrays of which each one but the first holds the one before it. -/
def tower (n : ℕ) : Heap :=
  ⟨Array.ofFn fun i : Fin n => if i.val = 0 then #[] else #[.array (i.val - 1)]⟩

theorem size_tower (n : ℕ) : (tower n).size = n := by simp [tower, size]

theorem has_tower {n i : ℕ} {w : Value} (has : (tower n).Has (.array i) w) :
    0 < i ∧ w = .array (i - 1) := by
  obtain ⟨k, eq, mem⟩ := has
  cases eq
  by_cases bound : i < n <;>
    simp [tower, items, Array.getD_eq_getD_getElem?, bound] at mem
  exact ⟨by omega, mem.2⟩

theorem tower_has {n i : ℕ} (bound : i + 1 < n) : (tower n).Has (.array (i + 1)) (.array i) :=
  ⟨i + 1, rfl, by simp [tower, items, Array.getD_eq_getD_getElem?, bound]⟩

theorem inside_tower {n k : ℕ} {w : Value} (inside : (tower n).Inside (.array k) w) :
    ∃ i ≤ k, w = .array i := by
  induction inside with
  | refl => exact ⟨k, Nat.le_refl k, rfl⟩
  | tail _ has ih =>
    obtain ⟨i, le, rfl⟩ := ih
    exact ⟨i - 1, by omega, (has_tower has).2⟩

theorem below_tower {n i : ℕ} {w : Value}
    (below : Relation.TransGen (tower n).Has (.array i) w) : ∃ k < i, w = .array k := by
  induction below with
  | single has => exact ⟨i - 1, by have := (has_tower has).1; omega, (has_tower has).2⟩
  | tail _ has ih =>
    obtain ⟨k, less, rfl⟩ := ih
    exact ⟨k - 1, by omega, (has_tower has).2⟩

theorem plain_tower {n k : ℕ} (bound : k < n) : (tower n).Plain (.array k) where
  exist i inside := by
    obtain ⟨i, le, eq⟩ := inside_tower inside
    cases eq
    rw [size_tower]
    omega
  acyclic w inside cycle := by
    obtain ⟨i, -, rfl⟩ := inside_tower inside
    obtain ⟨k, less, eq⟩ := below_tower cycle
    cases eq
    exact lt_irrefl _ less
  finite x inside := by
    obtain ⟨i, -, eq⟩ := inside_tower inside
    cases eq

theorem deeperThan_tower {n m : ℕ} (bound : m < n) : (tower n).DeeperThan m (.array m) := by
  induction m with
  | zero => exact ⟨0, rfl⟩
  | succ m ih => exact ⟨_, tower_has bound, ih (by omega)⟩

end Heap

/-- One array in the middle of 127 others has a text that is not read. -/
theorem arrays_128_deep_are_not_read_back : ∃ text place,
    (Heap.tower 128).toJson (.array 127) = .ok text ∧
      (Heap.tower 128).ofJson text = .error (.malformed ⟨.tooDeep, place⟩) := by
  obtain ⟨text, written, -, refused⟩ := a_value_is_read_back_unless_it_nests_too_deep
    (Heap.tower 128) (.array 127) (Heap.plain_tower (by decide))
  obtain ⟨place, read⟩ := refused (Heap.deeperThan_tower (by decide))
  exact ⟨text, place, written, read⟩

end BraceScript
