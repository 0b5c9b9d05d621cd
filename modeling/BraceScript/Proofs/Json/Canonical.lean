-- Documents become values and texts again: whatever text is read, its value
-- has a text, which is read as an equal value, and that value has the same
-- text.
import BraceScript.Proofs.Json.RoundTrip
import Mathlib

namespace BraceScript

namespace Json

open Number

/-! ## What is read -/

/-- There is an object in the document, at whatever depth. -/
inductive HasObject : Json → Prop where
  | here : HasObject .object
  | inside {j items} (mem : j ∈ items) (has : HasObject j) : HasObject (.array items)

theorem Nearest.isFinite {units places : ℕ} {power : ℤ} {x : Float}
    (nearest : Nearest units places power x) : x.isFinite = true := by
  cases nearest with
  | inRange _ below => exact (inRange_ofDecimal _ _).finite below
  | vanishing => rfl

theorem Numeric.isFinite {cs : List Char} {x : Float} (numeric : Numeric cs x) :
    x.isFinite = true := by
  cases numeric with
  | positive size =>
    cases size with
    | of _ _ _ nearest => exact nearest.isFinite
  | negative size =>
    cases size with
    | of _ _ _ nearest => exact isFinite_neg nearest.isFinite

/-- The documents that a part of a document consists of. -/
def Part.documents : Part → List Json
  | .value j | .element j => [j]
  | .elements js => js
  | .member | .members => []

/-- No more brackets are open at once than there may be, and but for objects the document is
plain. -/
structure Bounded (n : ℕ) (j : Json) : Prop where
  depth : j.depth ≤ n
  plain : ¬j.HasObject → j.Plain

theorem bounded_array {n : ℕ} {items : List Json} (all : ∀ j ∈ items, Bounded n j) :
    Bounded (n + 1) (.array items) := by
  constructor
  · rw [depth, Nat.add_le_add_iff_right, depthAll_le_iff]
    exact fun j mem => (all j mem).depth
  · intro noObject
    rw [Plain, plainAll_iff]
    exact fun j mem => (all j mem).plain fun has => noObject (.inside mem has)

theorem bounded_object (n : ℕ) : Bounded (n + 1) .object :=
  ⟨Nat.le_add_left 1 n, fun noObject => absurd .here noObject⟩

theorem Derives.bounded {n : ℕ} {part : Part} {cs : List Char} (derives : Derives n part cs) :
    ∀ j ∈ part.documents, Bounded n j := by
  have single {n : ℕ} {j : Json} (bounded : Bounded n j) : ∀ k ∈ [j], Bounded n k :=
    List.forall_mem_singleton.mpr bounded
  induction derives with
  | nullWord | trueWord | falseWord | text => exact single ⟨Nat.zero_le _, fun _ => trivial⟩
  | number numeric => exact single ⟨Nat.zero_le _, fun _ => numeric.isFinite⟩
  | noElements => exact single (bounded_array fun j mem => absurd mem List.not_mem_nil)
  | array _ all => exact single (bounded_array all)
  | noMembers | object => exact single (bounded_object _)
  | element _ _ _ value => exact value
  | lastElement _ element => exact element
  | moreElements _ _ element others =>
    exact List.forall_mem_cons.mpr ⟨List.forall_mem_singleton.mp element, others⟩
  | member | lastMember | moreMembers => exact fun j mem => absurd mem List.not_mem_nil

theorem IsDocument.bounded {text : String} {j : Json} (document : IsDocument text j) :
    Bounded 127 j :=
  List.forall_mem_singleton.mp (Derives.bounded document)

/-! ## One text for a value -/

theorem writeNumber_oneZero {x : Float} (finite : x.isFinite = true) :
    writeNumber (oneZero x) = writeNumber x := by
  unfold oneZero
  split
  · next zero =>
    obtain ⟨negative, m, e, exact⟩ := exact_of_isFinite finite
    obtain rfl := (beq_zero_of_exact exact).mp zero
    rw [writeNumber_zero exact]
    rfl
  · rfl

mutual

/-- The two zeros are written alike. -/
theorem chars_oneZeros : (j : Json) → j.Plain → j.oneZeros.chars = j.chars
  | .null, _ | .boolean _, _ | .text _, _ => rfl
  | .number x, finite => by rw [oneZeros, chars, chars, writeNumber_oneZero finite]
  | .array items, plain => by rw [oneZeros, chars, chars, itemsChars_oneZeros [] items plain]

theorem itemsChars_oneZeros (between : List Char) : (items : List Json) → PlainAll items →
    itemsChars between (oneZerosAll items) = itemsChars between items
  | [], _ => rfl
  | item :: items, plain => by
    rw [oneZerosAll, itemsChars, itemsChars, chars_oneZeros item plain.1,
      itemsChars_oneZeros [','] items plain.2]

end

theorem write_oneZeros {j : Json} (plain : j.Plain) : j.oneZeros.write = j.write := by
  rw [← String.toList_inj, toList_write, toList_write, chars_oneZeros j plain]

end Json

/-! ## Values of documents -/

namespace Heap

mutual

/-- A document with an object in it has no value. -/
theorem value?_of_hasObject (h : Heap) : (j : Json) → j.HasObject → j.value? h = none
  | .object, _ => by rw [Json.value?]
  | .array items, has => by
    have found : ∃ j ∈ items, j.HasObject := by
      cases has with
      | inside mem has => exact ⟨_, mem, has⟩
    rw [Json.value?, values?_of_hasObject h items found]
  | .null, has | .boolean _, has | .number _, has | .text _, has => nomatch has

theorem values?_of_hasObject (h : Heap) : (items : List Json) → (∃ j ∈ items, j.HasObject) →
    Json.values? h items = none
  | [], found => absurd found (by simp)
  | j :: items, found => by
    rw [Json.values?]
    obtain has | found := (List.exists_mem_cons_iff _ _ _).mp found
    · rw [value?_of_hasObject h j has]
    · cases value : Json.value? h j with
      | none => rfl
      | some r => simp only [values?_of_hasObject r.2 items found]

end

variable {h h' : Heap} {v w : Value} {j k : Json}

theorem not_hasObject_of_value? (value : j.value? h = some (v, h')) : ¬j.HasObject := by
  intro has
  rw [value?_of_hasObject h j has] at value
  cases value

theorem spells_of_value? (value : j.value? h = some (v, h')) (plain : j.Plain) : h'.Spells v j := by
  obtain ⟨v', h₁, value', -, -, spells⟩ := value?_of_plain h j plain
  rw [value] at value'
  cases value'
  exact spells

mutual

/-- A value has one document. -/
theorem Spells.unique : (v : Value) → (j k : Json) → h.Spells v j → h.Spells v k → j = k
  | _, .null, k, rfl, other => by
    cases k with
    | null => rfl
    | array => obtain ⟨_, _, eq, _⟩ := other; cases eq
    | _ => cases other
  | _, .boolean b, k, rfl, other => by
    cases k with
    | boolean => cases other; rfl
    | array => obtain ⟨_, _, eq, _⟩ := other; cases eq
    | _ => cases other
  | _, .number x, k, rfl, other => by
    cases k with
    | number => cases other; rfl
    | array => obtain ⟨_, _, eq, _⟩ := other; cases eq
    | _ => cases other
  | _, .text s, k, rfl, other => by
    cases k with
    | text => cases other; rfl
    | array => obtain ⟨_, _, eq, _⟩ := other; cases eq
    | _ => cases other
  | _, .array js, k, ⟨i, _, rfl, all⟩, other => by
    cases k with
    | array ks =>
      obtain ⟨_, _, ⟨⟩, others⟩ := other
      rw [SpellsAll.unique _ js ks all others]
    | _ => cases other

theorem SpellsAll.unique : (vs : List Value) → (js ks : List Json) → h.SpellsAll vs js →
    h.SpellsAll vs ks → js = ks
  | _, [], ks, rfl, other => by
    cases ks with
    | nil => rfl
    | cons => obtain ⟨_, _, eq, _⟩ := other; cases eq
  | _, j :: js, ks, ⟨v, vs, rfl, spells, all⟩, other => by
    cases ks with
    | nil => cases other
    | cons k ks =>
      obtain ⟨_, _, ⟨⟩, spells', all'⟩ := other
      rw [Spells.unique v j k spells spells', SpellsAll.unique vs js ks all all']

end

/-- What is in an array has a document within that of the array. -/
theorem SpellsAll.exists_of_mem {vs : List Value} {js : List Json} (all : h.SpellsAll vs js)
    (mem : w ∈ vs) : ∃ k ∈ js, h.Spells w k := by
  induction js generalizing vs with
  | nil =>
    cases all
    cases mem
  | cons j js ih =>
    obtain ⟨v, vs, rfl, spells, all⟩ := all
    obtain rfl | mem := List.mem_cons.mp mem
    · exact ⟨j, List.mem_cons_self, spells⟩
    · obtain ⟨k, inside, spells⟩ := ih all mem
      exact ⟨k, List.mem_cons_of_mem j inside, spells⟩

/-- The value has a document of so many levels, with finite numbers. -/
def SpelledWithin (h : Heap) (n : ℕ) (v : Value) : Prop := ∃ j, h.Spells v j ∧ j.Plain ∧ j.depth ≤ n

theorem SpelledWithin.of_has {n : ℕ} (spelled : h.SpelledWithin n v) (has : h.Has v w) :
    ∃ m < n, h.SpelledWithin m w := by
  obtain ⟨i, rfl, mem⟩ := has
  obtain ⟨j, spells, plain, depth⟩ := spelled
  cases j with
  | array js =>
    obtain ⟨_, _, ⟨⟩, all⟩ := spells
    obtain ⟨k, inside, spells⟩ := all.exists_of_mem mem
    rw [Json.depth] at depth
    refine ⟨Json.depthAll js, by omega, k, spells, Json.plainAll_iff.mp plain k inside, ?_⟩
    exact Json.depthAll_le_iff.mp (Nat.le_refl _) k inside
  | _ => cases spells

theorem SpelledWithin.of_transGen {n : ℕ} (spelled : h.SpelledWithin n v)
    (below : Relation.TransGen h.Has v w) : ∃ m < n, h.SpelledWithin m w := by
  induction below with
  | single has => exact spelled.of_has has
  | tail _ has ih =>
    obtain ⟨m, less, spelled⟩ := ih
    obtain ⟨k, less', spelled⟩ := spelled.of_has has
    exact ⟨k, less'.trans less, spelled⟩

theorem SpelledWithin.acyclic {n : ℕ} (spelled : h.SpelledWithin n v) :
    ¬Relation.TransGen h.Has v v := by
  induction n using Nat.strong_induction_on with
  | _ n ih =>
    intro cycle
    obtain ⟨m, less, spelled⟩ := spelled.of_transGen cycle
    exact ih m less spelled cycle

/-- Whatever has a document is made of finite numbers and of arrays that do not contain
themselves. -/
theorem Spells.plainValue (spells : h.Spells v j) (plain : j.Plain) : h.Plain v := by
  have all {w : Value} (inside : h.Inside v w) : ∃ n, h.SpelledWithin n w := by
    induction inside with
    | refl => exact ⟨j.depth, j, spells, plain, Nat.le_refl _⟩
    | tail _ has ih =>
      obtain ⟨n, spelled⟩ := ih
      obtain ⟨m, -, spelled⟩ := spelled.of_has has
      exact ⟨m, spelled⟩
  refine ⟨fun i inside => ?_, fun w inside => ?_, fun x inside => ?_⟩
  · obtain ⟨n, k, spells, -⟩ := all inside
    cases k with
    | array =>
      obtain ⟨_, bound, ⟨⟩, -⟩ := spells
      exact bound
    | _ => cases spells
  · obtain ⟨n, spelled⟩ := all inside
    exact spelled.acyclic
  · obtain ⟨n, k, spells, plain, -⟩ := all inside
    cases k with
    | number =>
      cases spells
      exact plain
    | array =>
      obtain ⟨_, _, ⟨⟩, -⟩ := spells
    | _ => cases spells

/-- The text of a value is that of its document. -/
theorem toJson_of_spells (spells : h.Spells v j) (plain : j.Plain) : h.toJson v = .ok j.write := by
  obtain ⟨k, written, spells', -⟩ := toJson_of_plain (spells.plainValue plain)
  rw [written, Spells.unique v j k spells spells']

end Heap

/-! ## Reading and writing in turns -/

theorem ofJson_eq_ok_iff {h h' : Heap} {text : String} {v : Value} :
    h.ofJson text = .ok (v, h') ↔ ∃ j, Json.IsDocument text j ∧ j.value? h = some (v, h') := by
  unfold Heap.ofJson
  constructor
  · intro read
    split at read
    · cases read
    · next j document =>
      split at read
      · next r value =>
        cases read
        exact ⟨j, Json.read_eq_ok_iff.mp document, value⟩
      · cases read
  · rintro ⟨j, document, value⟩
    simp only [Json.read_eq_ok_iff.mpr document, value]

/-- A text is read if it is a document without an object in it, however deep. What it is read as
has a text of its own, which is read as a strictly equal value, and that value has the same
text. -/
theorem what_is_read_is_written_alike_from_then_on (h : Heap) (text : String) :
    ((∃ v h', h.ofJson text = .ok (v, h')) ↔ ∃ j, Json.IsDocument text j ∧ ¬j.HasObject) ∧
      ∀ v h', h.ofJson text = .ok (v, h') → ∃ canonical w h'', h'.toJson v = .ok canonical ∧
        h'.ofJson canonical = .ok (w, h'') ∧ h''.strictEq w v = true ∧
        h''.toJson w = .ok canonical := by
  refine ⟨⟨?_, ?_⟩, ?_⟩
  · rintro ⟨v, h', read⟩
    obtain ⟨j, document, value⟩ := ofJson_eq_ok_iff.mp read
    exact ⟨j, document, Heap.not_hasObject_of_value? value⟩
  · rintro ⟨j, document, noObject⟩
    obtain ⟨v, h', value, -⟩ := Heap.value?_of_plain h j (document.bounded.plain noObject)
    exact ⟨v, h', ofJson_eq_ok_iff.mpr ⟨j, document, value⟩⟩
  · intro v h' read
    obtain ⟨j, document, value⟩ := ofJson_eq_ok_iff.mp read
    have plain := document.bounded.plain (Heap.not_hasObject_of_value? value)
    have spells := Heap.spells_of_value? value plain
    have plain' := Json.Plain.oneZeros j plain
    obtain ⟨w, h'', value', grown, size, spells'⟩ := Heap.value?_of_plain h' j.oneZeros plain'
    refine ⟨j.write, w, h'', Heap.toJson_of_spells spells plain, ?_, ?_, ?_⟩
    · obtain ⟨place, read⟩ := Json.read_write plain
      rw [if_pos document.bounded.depth] at read
      rw [Heap.ofJson, read]
      simp [value']
    · rw [Json.depth_oneZeros] at size
      have := Nat.le_mul_self h''.size
      exact Heap.equalWithin_of_spells [] v w j plain spells' (Heap.Spells.grow grown v j spells)
        (by omega)
    · rw [Heap.toJson_of_spells spells' plain', Json.write_oneZeros plain]

/-- Blanks and a surrogate pair are gone after one reading. -/
theorem a_text_with_blanks_and_a_pair : ∃ v h' w h'',
    (⟨#[]⟩ : Heap).ofJson " [true,\t\"\\ud83d\\uDE00\" ]" = .ok (v, h') ∧
      h'.toJson v = .ok "[true,\"😀\"]" ∧ h'.ofJson "[true,\"😀\"]" = .ok (w, h'') ∧
      h''.strictEq w v = true ∧ h''.toJson w = .ok "[true,\"😀\"]" := by
  have read : (⟨#[]⟩ : Heap).ofJson " [true,\t\"\\ud83d\\uDE00\" ]" =
      .ok (.array 0, ⟨#[#[.boolean true, .text "😀"]]⟩) := by cbv
  have written : (⟨#[#[.boolean true, .text "😀"]]⟩ : Heap).toJson (.array 0) =
      .ok "[true,\"😀\"]" := by cbv
  obtain ⟨canonical, w, h'', again⟩ := (what_is_read_is_written_alike_from_then_on _ _).2 _ _ read
  rw [written] at again
  obtain ⟨⟨⟩, back⟩ := again
  exact ⟨_, _, w, h'', read, written, back⟩

end BraceScript
