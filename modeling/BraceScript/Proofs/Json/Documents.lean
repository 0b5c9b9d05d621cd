-- The text of a document is read back as the document, with one zero instead
-- of two, unless its brackets nest too deep; then the reader says so.
import BraceScript.Proofs.Json.Completeness
import BraceScript.Proofs.Json.Numbers
import BraceScript.Proofs.Json.Texts
import Mathlib

namespace BraceScript.Json

/-! ## Documents as characters -/

mutual

/-- The characters of a document. -/
def chars : Json → List Char
  | .null => ['n', 'u', 'l', 'l']
  | .boolean true => ['t', 'r', 'u', 'e']
  | .boolean false => ['f', 'a', 'l', 's', 'e']
  | .number x => (writeNumber x).toList
  | .text s => '"' :: (escapedChars s.toList ++ ['"'])
  | .array items => '[' :: (itemsChars [] items ++ [']'])
  | .object => ['{', '}']

/-- The characters of several documents with commas between them. -/
def itemsChars (between : List Char) : List Json → List Char
  | [] => []
  | item :: items => between ++ (item.chars ++ itemsChars [','] items)

end

mutual

theorem toList_writeOnto (out : String) : (j : Json) →
    (writeOnto out j).toList = out.toList ++ j.chars
  | .null => by simp [writeOnto, chars]
  | .boolean true => by simp [writeOnto, chars]
  | .boolean false => by simp [writeOnto, chars]
  | .number x => by simp [writeOnto, chars]
  | .text s => by rw [writeOnto, toList_textOnto, chars]
  | .array items => by
    rw [writeOnto, String.toList_append, toList_writeItemsOnto, chars]
    simp
  | .object => by simp [writeOnto, chars]

theorem toList_writeItemsOnto (out between : String) : (items : List Json) →
    (writeItemsOnto out between items).toList = out.toList ++ itemsChars between.toList items
  | [] => by simp [writeItemsOnto, itemsChars]
  | item :: items => by
    rw [writeItemsOnto, toList_writeItemsOnto, toList_writeOnto, itemsChars]
    simp

end

theorem toList_write (j : Json) : j.write.toList = j.chars := by
  rw [write, toList_writeOnto, String.toList_empty, List.nil_append]

/-! ## What a document is made of -/

mutual

/-- The document has finite numbers only, and no objects. -/
def Plain : Json → Prop
  | .number x => x.isFinite = true
  | .array items => PlainAll items
  | .object => False
  | .null | .boolean _ | .text _ => True

def PlainAll : List Json → Prop
  | [] => True
  | item :: items => item.Plain ∧ PlainAll items

end

theorem plainAll_iff {items : List Json} : PlainAll items ↔ ∀ j ∈ items, j.Plain := by
  induction items with
  | nil => simp [PlainAll]
  | cons j items ih => simp [PlainAll, ih]

mutual

/-- How many brackets are open at once. -/
def depth : Json → Nat
  | .array items => depthAll items + 1
  | .object => 1
  | .null | .boolean _ | .number _ | .text _ => 0

def depthAll : List Json → Nat
  | [] => 0
  | item :: items => max item.depth (depthAll items)

end

theorem depthAll_le_iff {items : List Json} {n : ℕ} :
    depthAll items ≤ n ↔ ∀ j ∈ items, j.depth ≤ n := by
  induction items with
  | nil => simp [depthAll]
  | cons j items ih => simp [depthAll, ih]

mutual

/-- The document, with one zero instead of two. -/
def oneZeros : Json → Json
  | .number x => .number (oneZero x)
  | .array items => .array (oneZerosAll items)
  | .null => .null
  | .boolean b => .boolean b
  | .text s => .text s
  | .object => .object

def oneZerosAll : List Json → List Json
  | [] => []
  | item :: items => item.oneZeros :: oneZerosAll items

end

mutual

theorem depth_oneZeros : (j : Json) → j.oneZeros.depth = j.depth
  | .array items => congrArg (· + 1) (depthAll_oneZerosAll items)
  | .null | .boolean _ | .number _ | .text _ | .object => rfl

theorem depthAll_oneZerosAll : (items : List Json) →
    depthAll (oneZerosAll items) = depthAll items
  | [] => rfl
  | item :: items => congrArg₂ max (depth_oneZeros item) (depthAll_oneZerosAll items)

end

mutual

theorem Plain.oneZeros : (j : Json) → j.Plain → j.oneZeros.Plain
  | .number _, finite => isFinite_oneZero finite
  | .array items, plain => PlainAll.oneZerosAll items plain
  | .null, _ | .boolean _, _ | .text _, _ => trivial

theorem PlainAll.oneZerosAll : (items : List Json) → PlainAll items → PlainAll (oneZerosAll items)
  | [], _ => trivial
  | item :: items, plain =>
    ⟨Plain.oneZeros item plain.1, PlainAll.oneZerosAll items plain.2⟩

end

/-! ## Reading -/

theorem isRead_number {n : ℕ} {x : Float} (finite : x.isFinite = true) :
    ValueIsRead n (Json.number x).oneZeros (Json.number x).chars := by
  rw [oneZeros, chars]
  exact (numeric_writeNumber finite).valueIsRead

theorem isRead_text {n : ℕ} (s : String) :
    ValueIsRead n (Json.text s).oneZeros (Json.text s).chars := by
  have read := (spelling_escapedChars s.toList).valueIsRead (n := n)
  rw [String.ofList_toList] at read
  rw [oneZeros, chars]
  exact read

/-- A document begins as one does. -/
theorem begins_chars {j : Json} (plain : j.Plain) : Begins j.chars := by
  cases j with
  | null => exact ⟨_, _, chars.eq_1, by decide, by decide, by decide⟩
  | boolean b => cases b <;> exact ⟨_, _, by rw [chars], by decide, by decide, by decide⟩
  | number x => exact (isRead_number (n := 0) plain).begins
  | text s => exact ⟨_, _, by rw [chars], by decide, by decide, by decide⟩
  | array items => exact ⟨_, _, by rw [chars], by decide, by decide, by decide⟩
  | object => exact plain.elim

theorem length_le_itemsChars (between : List Char) {items : List Json} (plain : PlainAll items) :
    items.length ≤ (itemsChars between items).length := by
  induction items generalizing between with
  | nil => exact Nat.zero_le _
  | cons item items ih =>
    obtain ⟨c, cs, text, -⟩ := begins_chars plain.1
    have others := ih [','] plain.2
    simp only [itemsChars, text, List.length_append, List.length_cons]
    omega

theorem endsValue_itemsChars (items : List Json) (rest : List Char) :
    EndsValue (itemsChars [','] items ++ ']' :: rest) := by
  cases items with
  | nil => exact fun c hc => .inr (.inr (.inl (Option.some.inj hc).symm))
  | cons item items => exact fun c hc => .inr (.inl (Option.some.inj hc).symm)

/-- A document without brackets is read back. -/
theorem readValue_flat {n : ℕ} {j : Json} {rest : List Char} (positive : 0 < n)
    (ends : EndsValue rest) (place : Place) (flat : j.depth = 0)
    (isRead : ∀ n, ValueIsRead n j.oneZeros j.chars) :
    ∃ place', readValue n ⟨j.chars ++ rest, place⟩ =
      if j.depth < n then .ok (j.oneZeros, ⟨rest, place'⟩) else .error ⟨.tooDeep, place'⟩ := by
  obtain ⟨n, rfl⟩ := Nat.exists_eq_succ_of_ne_zero positive.ne'
  obtain ⟨place', read⟩ := (isRead n).read rest ends place
  exact ⟨place', by rw [if_pos (by omega)]; exact read⟩

mutual

/-- A document is read back up to what follows it. -/
theorem readValue_chars {n : ℕ} (positive : 0 < n) {rest : List Char} (ends : EndsValue rest)
    (place : Place) : (j : Json) → j.Plain → ∃ place', readValue n ⟨j.chars ++ rest, place⟩ =
      if j.depth < n then .ok (j.oneZeros, ⟨rest, place'⟩) else .error ⟨.tooDeep, place'⟩
  | .null, _ =>
    readValue_flat positive ends place rfl fun _ => isRead_of_derives .nullWord
  | .boolean true, _ =>
    readValue_flat positive ends place rfl fun _ => isRead_of_derives .trueWord
  | .boolean false, _ =>
    readValue_flat positive ends place rfl fun _ => isRead_of_derives .falseWord
  | .number _, finite => readValue_flat positive ends place rfl fun _ => isRead_number finite
  | .text s, _ => readValue_flat positive ends place rfl fun _ => isRead_text s
  | .array items, plain => by
    rw [depth, oneZeros, chars, List.cons_append, List.append_assoc, List.singleton_append]
    unfold readValue
    rw [skipBlanks_cons (by decide)]
    match n, positive with
    | 1, _ => exact ⟨_, by rw [if_neg (by omega)]; rfl⟩
    | n + 2, _ =>
      have enough : items.length < ('[' :: (itemsChars [] items ++ ']' :: rest)).length := by
        have := length_le_itemsChars [] plain
        rw [List.length_cons, List.length_append]
        omega
      obtain ⟨place', read⟩ := readItems_chars (n := n + 1) (Nat.succ_pos n) rest true
        (Input.after place '[') items plain enough
      refine ⟨place', ?_⟩
      change Except.map _ (readItems (readValue (n + 1)) true _ ⟨itemsChars [] items ++ ']' :: rest,
        Input.after place '['⟩) = _
      change readItems _ _ _ ⟨itemsChars [] items ++ ']' :: rest, _⟩ = _ at read
      rw [read]
      split
      · next shallow => rw [if_pos (by omega)]; rfl
      · next deep => rw [if_neg (by omega)]; rfl

theorem readItems_chars {n : ℕ} (positive : 0 < n) (rest : List Char) (first : Bool) {fuel : ℕ}
    (place : Place) : (items : List Json) → PlainAll items → items.length < fuel →
      ∃ place', readItems (readValue n) first fuel
          ⟨itemsChars (between first) items ++ ']' :: rest, place⟩ =
        if depthAll items < n then .ok (oneZerosAll items, ⟨rest, place'⟩)
        else .error ⟨.tooDeep, place'⟩
  | [], _, enough => by
    obtain ⟨fuel, rfl⟩ := Nat.exists_eq_succ_of_ne_zero (by omega : fuel ≠ 0)
    simp only [depthAll, positive, if_true]
    exact takes_lastItem (readValue n) first fuel blanks_nil rest place
  | item :: items, plain, enough => by
    obtain ⟨fuel, rfl⟩ := Nat.exists_eq_succ_of_ne_zero (by omega : fuel ≠ 0)
    have enough : items.length < fuel := by simpa using enough
    obtain ⟨place, step⟩ := takes_item (readValue n) first fuel blanks_nil blanks_nil
      ((begins_chars plain.1).append (itemsChars [','] items ++ ']' :: rest)) place
    obtain ⟨place, head⟩ :=
      readValue_chars positive (endsValue_itemsChars items rest) place item plain.1
    obtain ⟨place', others⟩ := readItems_chars positive rest false place items plain.2 enough
    simp only [List.nil_append] at step
    simp only [itemsChars, List.append_assoc, step, head, oneZerosAll]
    by_cases shallow : item.depth < n
    · refine ⟨place', ?_⟩
      rw [if_pos shallow, ok_bind]
      dsimp only
      change readItems _ _ _ ⟨itemsChars [','] items ++ ']' :: rest, place⟩ = _ at others
      rw [others]
      split
      · next shallow => rw [if_pos (by rw [depthAll]; omega)]; rfl
      · next deep => rw [if_neg (by rw [depthAll]; omega)]; rfl
    · refine ⟨place, ?_⟩
      rw [if_neg shallow, if_neg (by rw [depthAll]; omega)]
      rfl

end

/-- A document is read back from its text, with one zero instead of two, unless
more than 127 brackets are open at once. -/
theorem read_write {j : Json} (plain : j.Plain) :
    ∃ place, read j.write =
      if j.depth ≤ 127 then .ok j.oneZeros else .error ⟨.tooDeep, place⟩ := by
  have ends : EndsValue [] := fun c hc => by cases hc
  obtain ⟨place, value⟩ := readValue_chars (n := depthLimit) (by decide) ends ⟨1, 0⟩ j plain
  refine ⟨place, ?_⟩
  rw [List.append_nil] at value
  rw [read, Input.ofText, toList_write, value]
  by_cases shallow : j.depth < depthLimit
  · rw [if_pos shallow, if_pos (Nat.le_of_lt_succ shallow)]
    rfl
  · rw [if_neg shallow, if_neg fun le => shallow (Nat.lt_succ_of_le le)]
    rfl

end BraceScript.Json
