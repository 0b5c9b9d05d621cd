-- Every spelling of a document is read as the document.
import BraceScript.Proofs.Json.Soundness
import Mathlib

namespace BraceScript.Json

open Number

variable {rest : List Char}

/-! ## Values and what may follow them -/

theorem skipBlanks_cons {c : Char} {cs : List Char} {place : Place}
    (blank : Input.isBlank c = false) :
    Input.skipBlanks ⟨c :: cs, place⟩ = ⟨c :: cs, place⟩ := by
  simp [Input.skipBlanks, Input.dropWhile, blank]

theorem isBlank_of_isDigit {c : Char} (digit : Number.isDigit c = true) :
    Input.isBlank c = false := by
  by_contra blank
  simp only [Input.isBlank, Bool.not_eq_false, Bool.or_eq_true, beq_iff_eq] at blank
  obtain ((rfl | rfl) | rfl) | rfl := blank <;> cases digit

theorem readValue_digit {n : ℕ} {c : Char} {cs : List Char} {place : Place}
    (digit : Number.isDigit c = true) :
    readValue n ⟨c :: cs, place⟩ = readNumber false ⟨c :: cs, place⟩ := by
  unfold readValue
  rw [skipBlanks_cons (isBlank_of_isDigit digit)]
  dsimp only
  split
  case h_9 h =>
    cases h
    rw [if_pos digit]
  all_goals next h => cases h <;> cases digit

/-- What may follow a document. -/
def EndsValue (rest : List Char) : Prop :=
  ∀ c ∈ rest.head?, Input.isBlank c = true ∨ c = ',' ∨ c = ']' ∨ c = '}'

theorem EndsValue.number (ends : EndsValue rest) : EndsNumber rest := by
  intro c hc
  obtain blank | rfl | rfl | rfl := ends c hc
  · obtain rfl | rfl | rfl | rfl := isBlank_iff.mp blank <;> decide
  all_goals decide

theorem Blanks.endsValue {blanks : List Char} (blank : Blanks blanks) (ends : EndsValue rest) :
    EndsValue (blanks ++ rest) := by
  cases blanks with
  | nil => exact ends
  | cons c cs =>
    rintro c ⟨⟩
    exact .inl (isBlank_iff.mpr (blank c List.mem_cons_self))

/-- A document begins with something else than a blank or a bracket that closes. -/
def Begins (cs : List Char) : Prop :=
  ∃ c ds, cs = c :: ds ∧ Input.isBlank c = false ∧ c ≠ ']' ∧ c ≠ '}'

theorem Begins.append {cs : List Char} (begins : Begins cs) (rest : List Char) :
    Begins (cs ++ rest) := by
  obtain ⟨c, ds, rfl, first⟩ := begins
  exact ⟨c, ds ++ rest, rfl, first⟩

theorem Begins.notBlank {cs : List Char} (begins : Begins cs) :
    ∀ c ∈ cs.head?, Input.isBlank c = false := by
  obtain ⟨c, ds, rfl, blank, -⟩ := begins
  rintro c ⟨⟩
  exact blank

/-- The blanks in front of a document are passed over. -/
theorem readValue_behind {blanks cs : List Char} (n : ℕ) (blank : Blanks blanks)
    (begins : Begins cs) (place : Place) :
    ∃ place', readValue n ⟨blanks ++ cs, place⟩ = readValue n ⟨cs, place'⟩ := by
  obtain ⟨place', skip⟩ := takes_skipBlanks blank begins.notBlank place
  obtain ⟨c, ds, rfl, notBlank, -⟩ := begins
  refine ⟨place', ?_⟩
  unfold readValue
  rw [skip, skipBlanks_cons notBlank]

/-- What comes in front of an item is passed over. -/
theorem takes_separator {closing : Char} (notComma : ',' ≠ closing) (missing : Cause) (first : Bool)
    {blanks front : List Char} {c : Char} (cs : List Char) (blank : Blanks blanks)
    (before : Blanks front) (notBlank : Input.isBlank c = false) (notClosing : c ≠ closing)
    (place : Place) :
    ∃ i, Input.skipBlanks ⟨blanks ++ (between first ++ (front ++ c :: cs)), place⟩ = i ∧
      (∃ d ds, i.rest = d :: ds ∧ d ≠ closing) ∧
      ∃ place', readSeparator closing missing first i = .ok ⟨c :: cs, place'⟩ := by
  have ends : ∀ d ∈ (c :: cs).head?, Input.isBlank d = false := by
    rintro d ⟨⟩
    exact notBlank
  cases first
  · have comma : ∀ d ∈ (',' :: (front ++ c :: cs)).head?, Input.isBlank d = false := by
      rintro d ⟨⟩
      rfl
    obtain ⟨place, skip⟩ := takes_skipBlanks blank comma place
    obtain ⟨place', skip'⟩ := takes_skipBlanks before ends (Input.after place ',')
    refine ⟨_, skip, ⟨_, _, rfl, notComma⟩, place', ?_⟩
    simp [readSeparator, Input.drop, skip', notClosing]
  · obtain ⟨place', skip⟩ := takes_skipBlanks (blank.append before) ends place
    rw [List.append_assoc] at skip
    exact ⟨_, skip, ⟨c, cs, rfl, notClosing⟩, place', rfl⟩

/-- An item of an array, and then the others. -/
theorem takes_item (value : Input → Except Error (Json × Input)) (first : Bool) (fuel : ℕ)
    {blanks front cs : List Char} (blank : Blanks blanks) (before : Blanks front)
    (begins : Begins cs) (place : Place) : ∃ place',
      readItems value first (fuel + 1) ⟨blanks ++ (between first ++ (front ++ cs)), place⟩ =
        (do
          let (item, i) ← value ⟨cs, place'⟩
          let (items, i) ← readItems value false fuel i
          return (item :: items, i)) := by
  obtain ⟨c, cs, rfl, notBlank, notClosing, -⟩ := begins
  obtain ⟨i, skip, ⟨d, ds, chars, going⟩, place', separator⟩ :=
    takes_separator (by decide) .noCommaInList first cs blank before notBlank notClosing place
  refine ⟨place', ?_⟩
  rw [readItems, skip]
  dsimp only
  split
  · next none => rw [chars] at none; cases none
  · next closing =>
    rw [chars] at closing
    cases closing
    exact absurd rfl going
  · rw [separator, ok_bind]

/-- A member of an object, and then the others. -/
theorem takes_member (value : Input → Except Error (Json × Input)) (first : Bool) (fuel : ℕ)
    {blanks front key text back : List Char} (blank : Blanks blanks) (before : Blanks front)
    (isKey : Spelling key text) (isBack : Blanks back) (cs : List Char) (place : Place) : ∃ place',
      readMembers value first (fuel + 1)
        ⟨blanks ++ (between first ++ (front ++ '"' :: (key ++ '"' :: (back ++ ':' :: cs)))),
          place⟩ =
        (do
          let (_, i) ← value ⟨cs, place'⟩
          readMembers value false fuel i) := by
  obtain ⟨i, skip, ⟨d, ds, chars, going⟩, place, separator⟩ :=
    takes_separator (show ',' ≠ '}' by decide) .noCommaInObject first
      (key ++ '"' :: (back ++ ':' :: cs)) blank before (show Input.isBlank '"' = false from rfl)
      (by decide) place
  obtain ⟨place, readKey⟩ := takes_readText isKey (back ++ ':' :: cs) (Input.after place '"')
  have colon : ∀ d ∈ (':' :: cs).head?, Input.isBlank d = false := by
    rintro d ⟨⟩
    rfl
  obtain ⟨place, skip'⟩ := takes_skipBlanks isBack colon place
  refine ⟨Input.after place ':', ?_⟩
  rw [readMembers, skip]
  dsimp only
  split
  · next none => rw [chars] at none; cases none
  · next closing =>
    rw [chars] at closing
    cases closing
    exact absurd rfl going
  · rw [separator, ok_bind]
    simp only [Input.drop, readKey, ok_bind, readColon, skip']

theorem takes_lastItem (value : Input → Except Error (Json × Input)) (first : Bool) (fuel : ℕ)
    {blanks : List Char} (blank : Blanks blanks) (rest : List Char) (place : Place) :
    ∃ place', readItems value first (fuel + 1) ⟨blanks ++ ']' :: rest, place⟩ =
      .ok ([], ⟨rest, place'⟩) := by
  have closing : ∀ d ∈ (']' :: rest).head?, Input.isBlank d = false := by
    rintro d ⟨⟩
    rfl
  obtain ⟨place', skip⟩ := takes_skipBlanks blank closing place
  exact ⟨_, by rw [readItems, skip]; rfl⟩

theorem takes_lastMember (value : Input → Except Error (Json × Input)) (first : Bool) (fuel : ℕ)
    {blanks : List Char} (blank : Blanks blanks) (rest : List Char) (place : Place) :
    ∃ place', readMembers value first (fuel + 1) ⟨blanks ++ '}' :: rest, place⟩ =
      .ok ⟨rest, place'⟩ := by
  have closing : ∀ d ∈ ('}' :: rest).head?, Input.isBlank d = false := by
    rintro d ⟨⟩
    rfl
  obtain ⟨place', skip⟩ := takes_skipBlanks blank closing place
  exact ⟨_, by rw [readMembers, skip]; rfl⟩

/-- The value is read in front of whatever may follow it. -/
structure ValueIsRead (n : ℕ) (j : Json) (cs : List Char) : Prop where
  begins : Begins cs
  read : ∀ rest, EndsValue rest → ∀ place,
    ∃ place', readValue (n + 1) ⟨cs ++ rest, place⟩ = .ok (j, ⟨rest, place'⟩)

/-- The same of a value between blanks: those behind it are left. -/
def ElementIsRead (n : ℕ) (j : Json) (cs : List Char) : Prop :=
  ∃ front value back, cs = front ++ (value ++ back) ∧ Blanks front ∧ Blanks back ∧
    ValueIsRead n j value

/-- What it means for each part of a document that it is read. -/
def IsRead (n : ℕ) : Part → List Char → Prop
  | .value j, cs => ValueIsRead n j cs
  | .element j, cs => ElementIsRead n j cs
  | .elements js, cs => ∀ first fuel blanks rest place, Blanks blanks → cs.length < fuel →
    ∃ place', readItems (readValue (n + 1)) first fuel
      ⟨blanks ++ (between first ++ (cs ++ ']' :: rest)), place⟩ = .ok (js, ⟨rest, place'⟩)
  | .member, cs => ∃ front key text back j element,
    cs = front ++ '"' :: (key ++ '"' :: (back ++ ':' :: element)) ∧ Blanks front ∧
      Spelling key text ∧ Blanks back ∧ ElementIsRead n j element
  | .members, cs => ∀ first fuel blanks rest place, Blanks blanks → cs.length < fuel →
    ∃ place', readMembers (readValue (n + 1)) first fuel
      ⟨blanks ++ (between first ++ (cs ++ '}' :: rest)), place⟩ = .ok ⟨rest, place'⟩

section

variable {n fuel : ℕ} {j : Json} {js : List Json} {blanks cs behind : List Char}

/-- The element comes off the front of a row. -/
theorem ElementIsRead.item (element : ElementIsRead n j cs) (first : Bool) (fuel : ℕ)
    (blank : Blanks blanks) (ends : EndsValue behind) (place : Place) :
    ∃ back place', Blanks back ∧ readItems (readValue (n + 1)) first (fuel + 1)
      ⟨blanks ++ (between first ++ (cs ++ behind)), place⟩ = (do
        let (items, i) ← readItems (readValue (n + 1)) false fuel ⟨back ++ behind, place'⟩
        return (j :: items, i)) := by
  obtain ⟨front, value, back, rfl, before, isBack, isRead⟩ := element
  obtain ⟨place, item⟩ := takes_item (readValue (n + 1)) first fuel blank before
    (isRead.begins.append (back ++ behind)) place
  obtain ⟨place, read⟩ := isRead.read (back ++ behind) (isBack.endsValue ends) place
  refine ⟨back, place, isBack, ?_⟩
  simp only [List.append_assoc, item, read, ok_bind]

theorem ElementIsRead.length_pos (element : ElementIsRead n j cs) : 0 < cs.length := by
  obtain ⟨front, value, back, rfl, -, -, ⟨c, ds, rfl, -⟩, -⟩ := element
  simp only [List.length_append, List.length_cons]
  omega

theorem isRead_lastElement (element : ElementIsRead n j cs) : IsRead n (.elements [j]) cs := by
  intro first fuel blanks rest place blank enough
  have some := element.length_pos
  obtain ⟨fuel, rfl⟩ : ∃ k, fuel = k + 1 + 1 := ⟨fuel - 2, by omega⟩
  have ends : EndsValue (']' :: rest) := by
    rintro c ⟨⟩
    exact .inr (.inr (.inl rfl))
  obtain ⟨back, place, isBack, item⟩ := element.item first (fuel + 1) blank ends place
  obtain ⟨place, last⟩ := takes_lastItem (readValue (n + 1)) false fuel isBack rest place
  refine ⟨place, ?_⟩
  rw [item, last]
  rfl

theorem isRead_moreElements (element : ElementIsRead n j cs)
    (others : IsRead n (.elements js) behind) :
    IsRead n (.elements (j :: js)) (cs ++ ',' :: behind) := by
  intro first fuel blanks rest place blank enough
  rw [List.length_append, List.length_cons] at enough
  obtain ⟨fuel, rfl⟩ := Nat.exists_eq_succ_of_ne_zero (by omega : fuel ≠ 0)
  have ends : EndsValue (',' :: (behind ++ ']' :: rest)) := by
    rintro c ⟨⟩
    exact .inr (.inl rfl)
  obtain ⟨back, place, isBack, item⟩ := element.item first fuel blank ends place
  obtain ⟨place, more⟩ := others false fuel back rest place isBack (by omega)
  refine ⟨place, ?_⟩
  rw [List.append_assoc, List.cons_append, item]
  change readItems _ _ _ ⟨back ++ ',' :: (behind ++ ']' :: rest), _⟩ = _ at more
  rw [more]
  rfl

/-- The member comes off the front of a row. -/
theorem isRead_member (isMember : IsRead n .member cs) (first : Bool) (fuel : ℕ)
    (blank : Blanks blanks) (ends : EndsValue behind) (place : Place) :
    ∃ back place', Blanks back ∧ readMembers (readValue (n + 1)) first (fuel + 1)
      ⟨blanks ++ (between first ++ (cs ++ behind)), place⟩ =
        readMembers (readValue (n + 1)) false fuel ⟨back ++ behind, place'⟩ := by
  obtain ⟨front, key, text, space, j, _, rfl, before, isKey, isSpace, element⟩ := isMember
  obtain ⟨front', value, back, rfl, before', isBack, isRead⟩ := element
  have begins := isRead.begins.append (back ++ behind)
  obtain ⟨place, item⟩ := takes_member (readValue (n + 1)) first fuel blank before isKey isSpace
    (front' ++ (value ++ (back ++ behind))) place
  obtain ⟨place, skip⟩ := readValue_behind (n + 1) before' begins place
  obtain ⟨place, read⟩ := isRead.read (back ++ behind) (isBack.endsValue ends) place
  refine ⟨back, place, isBack, ?_⟩
  simp only [List.append_assoc, List.cons_append, item, skip, read, ok_bind]

theorem length_pos_of_member (isMember : IsRead n .member cs) : 0 < cs.length := by
  obtain ⟨front, key, text, back, j, element, rfl, -⟩ := isMember
  simp only [List.length_append, List.length_cons]
  omega

theorem isRead_lastMember (isMember : IsRead n .member cs) : IsRead n .members cs := by
  intro first fuel blanks rest place blank enough
  have some := length_pos_of_member isMember
  obtain ⟨fuel, rfl⟩ : ∃ k, fuel = k + 1 + 1 := ⟨fuel - 2, by omega⟩
  have ends : EndsValue ('}' :: rest) := by
    rintro c ⟨⟩
    exact .inr (.inr (.inr rfl))
  obtain ⟨back, place, isBack, item⟩ := isRead_member isMember first (fuel + 1) blank ends place
  obtain ⟨place, last⟩ := takes_lastMember (readValue (n + 1)) false fuel isBack rest place
  exact ⟨place, by rw [item, last]⟩

theorem isRead_moreMembers (isMember : IsRead n .member cs) (others : IsRead n .members behind) :
    IsRead n .members (cs ++ ',' :: behind) := by
  intro first fuel blanks rest place blank enough
  rw [List.length_append, List.length_cons] at enough
  obtain ⟨fuel, rfl⟩ := Nat.exists_eq_succ_of_ne_zero (by omega : fuel ≠ 0)
  have ends : EndsValue (',' :: (behind ++ '}' :: rest)) := by
    rintro c ⟨⟩
    exact .inr (.inl rfl)
  obtain ⟨back, place, isBack, item⟩ := isRead_member isMember first fuel blank ends place
  obtain ⟨place, more⟩ := others false fuel back rest place isBack (by omega)
  refine ⟨place, ?_⟩
  rw [List.append_assoc, List.cons_append, item]
  exact more

/-- A word is read if its first letter tells which word it is. -/
theorem valueIsRead_word {c : Char} {letters : List Char} (begins : Begins (c :: letters))
    (first : ∀ rest place, readValue (n + 1) ⟨c :: rest, place⟩ =
      (readWord letters ⟨rest, Input.after place c⟩).map (j, ·)) :
    ValueIsRead n j (c :: letters) := by
  refine ⟨begins, fun rest ends place => ?_⟩
  obtain ⟨place', word⟩ := takes_readWord letters rest (Input.after place c)
  exact ⟨place', by rw [List.cons_append, first, word]; rfl⟩

theorem Size.exists_cons {x : Float} (size : Size cs x) :
    ∃ c ds, cs = c :: ds ∧ isDigit c = true := by
  obtain ⟨whole, _, _, _⟩ := size
  next ds _ _ _ _ =>
  obtain ⟨c, ds, rfl⟩ := List.exists_cons_of_ne_nil whole.nonempty
  exact ⟨c, _, rfl, whole.all c List.mem_cons_self⟩

theorem Size.valueIsRead {x : Float} (size : Size cs x) : ValueIsRead n (.number x) cs := by
  obtain ⟨c, ds, rfl, digit⟩ := size.exists_cons
  refine ⟨⟨c, ds, rfl, isBlank_of_isDigit digit, ?_, ?_⟩, fun rest ends place => ?_⟩
  · rintro rfl
    cases digit
  · rintro rfl
    cases digit
  · obtain ⟨place', read⟩ := takes_readNumber false size ends.number place
    exact ⟨place', by rw [List.cons_append, readValue_digit digit]; exact read⟩

theorem Numeric.valueIsRead {x : Float} (numeric : Numeric cs x) :
    ValueIsRead n (.number x) cs := by
  cases numeric with
  | positive size => exact size.valueIsRead
  | negative size =>
    refine ⟨⟨'-', _, rfl, by decide, by decide, by decide⟩, fun rest ends place => ?_⟩
    obtain ⟨place', read⟩ := takes_readNumber true size ends.number (Input.after place '-')
    refine ⟨place', ?_⟩
    unfold readValue
    rw [List.cons_append, skipBlanks_cons (by decide)]
    exact read

theorem Spelling.valueIsRead {text : List Char} (spelling : Spelling cs text) :
    ValueIsRead n (.text (String.ofList text)) ('"' :: (cs ++ ['"'])) := by
  refine ⟨⟨'"', _, rfl, by decide, by decide, by decide⟩, fun rest ends place => ?_⟩
  obtain ⟨place', read⟩ := takes_readText spelling rest (Input.after place '"')
  refine ⟨place', ?_⟩
  unfold readValue
  rw [List.cons_append, List.append_assoc, skipBlanks_cons (by decide)]
  simp only [Input.drop, List.singleton_append, read]
  rfl

theorem valueIsRead_array
    (items : ∀ rest fuel place, cs.length < fuel → ∃ place',
      readItems (readValue (n + 1)) true fuel ⟨cs ++ ']' :: rest, place⟩ =
        .ok (js, ⟨rest, place'⟩)) :
    ValueIsRead (n + 1) (.array js) ('[' :: (cs ++ [']'])) := by
  refine ⟨⟨'[', _, rfl, by decide, by decide, by decide⟩, fun rest ends place => ?_⟩
  have enough : cs.length < ('[' :: (cs ++ ']' :: rest)).length := by
    simp only [List.length_append, List.length_cons]
    omega
  obtain ⟨place', read⟩ := items rest _ (Input.after place '[') enough
  refine ⟨place', ?_⟩
  unfold readValue
  rw [List.cons_append, List.append_assoc, skipBlanks_cons (by decide)]
  simp only [Input.drop, List.singleton_append, read]
  rfl

theorem valueIsRead_object
    (items : ∀ rest fuel place, cs.length < fuel → ∃ place',
      readMembers (readValue (n + 1)) true fuel ⟨cs ++ '}' :: rest, place⟩ = .ok ⟨rest, place'⟩) :
    ValueIsRead (n + 1) .object ('{' :: (cs ++ ['}'])) := by
  refine ⟨⟨'{', _, rfl, by decide, by decide, by decide⟩, fun rest ends place => ?_⟩
  have enough : cs.length < ('{' :: (cs ++ '}' :: rest)).length := by
    simp only [List.length_append, List.length_cons]
    omega
  obtain ⟨place', read⟩ := items rest _ (Input.after place '{') enough
  refine ⟨place', ?_⟩
  unfold readValue
  rw [List.cons_append, List.append_assoc, skipBlanks_cons (by decide)]
  simp only [Input.drop, List.singleton_append, read]
  rfl

end

/-- Whatever is a part of a document is read as that part. -/
theorem isRead_of_derives {n : ℕ} {part : Part} {cs : List Char} (derives : Derives n part cs) :
    IsRead n part cs := by
  induction derives with
  | nullWord =>
    refine valueIsRead_word ⟨'n', _, rfl, by decide, by decide, by decide⟩ fun rest place => ?_
    unfold readValue
    rw [skipBlanks_cons (by decide)]
    rfl
  | trueWord =>
    refine valueIsRead_word ⟨'t', _, rfl, by decide, by decide, by decide⟩ fun rest place => ?_
    unfold readValue
    rw [skipBlanks_cons (by decide)]
    rfl
  | falseWord =>
    refine valueIsRead_word ⟨'f', _, rfl, by decide, by decide, by decide⟩ fun rest place => ?_
    unfold readValue
    rw [skipBlanks_cons (by decide)]
    rfl
  | number numeric => exact numeric.valueIsRead
  | text spelling => exact spelling.valueIsRead
  | noElements blank =>
    refine valueIsRead_array fun rest fuel place enough => ?_
    obtain ⟨fuel, rfl⟩ := Nat.exists_eq_succ_of_ne_zero (by omega : fuel ≠ 0)
    exact takes_lastItem _ true fuel blank rest place
  | array _ items =>
    exact valueIsRead_array fun rest fuel place enough =>
      items true fuel [] rest place blanks_nil enough
  | noMembers blank =>
    refine valueIsRead_object fun rest fuel place enough => ?_
    obtain ⟨fuel, rfl⟩ := Nat.exists_eq_succ_of_ne_zero (by omega : fuel ≠ 0)
    exact takes_lastMember _ true fuel blank rest place
  | object _ items =>
    exact valueIsRead_object fun rest fuel place enough =>
      items true fuel [] rest place blanks_nil enough
  | element before _ behind value => exact ⟨_, _, _, rfl, before, behind, value⟩
  | lastElement _ element => exact isRead_lastElement element
  | moreElements _ _ element others => exact isRead_moreElements element others
  | member before isKey behind _ element =>
    exact ⟨_, _, _, _, _, _, rfl, before, isKey, behind, element⟩
  | lastMember _ isMember => exact isRead_lastMember isMember
  | moreMembers _ _ isMember others => exact isRead_moreMembers isMember others

/-- What is read is a document, and every document is read. -/
theorem read_eq_ok_iff {text : String} {j : Json} : read text = .ok j ↔ IsDocument text j := by
  refine ⟨read_sound, fun document => ?_⟩
  obtain ⟨front, value, back, chars, before, behind, isRead⟩ := isRead_of_derives document
  have ends : EndsValue [] := fun _ hc => nomatch hc
  obtain ⟨place, skip⟩ := readValue_behind depthLimit before (isRead.begins.append back) ⟨1, 0⟩
  obtain ⟨place, value⟩ := isRead.read back (by simpa using behind.endsValue ends) place
  have noMore : ∀ c ∈ ([] : List Char).head?, Input.isBlank c = false := fun _ hc => nomatch hc
  obtain ⟨place, last⟩ := takes_skipBlanks behind noMore place
  rw [List.append_nil] at last
  unfold read Input.ofText
  rw [chars, skip]
  change (readValue depthLimit _ >>= _) = _
  change readValue depthLimit _ = _ at value
  rw [value, ok_bind]
  simp only [last]
  rfl

example : IsDocument "[true,\t\"\\ud83d\\uDE00\" ]" (.array [.boolean true, .text "😀"]) :=
  read_eq_ok_iff.mp (by cbv)

end BraceScript.Json
