-- What is read as a document is a spelling of it.
import BraceScript.Proofs.Json.Lexemes
import Mathlib

namespace BraceScript.Json

variable {i i' : Input} {rest : List Char}

/-! ## Rows -/

/-- In front of an item stands nothing or a comma. -/
def between (first : Bool) : List Char := if first then [] else [',']

/-- Another part of a row, behind blanks and a comma, or the first part of one. -/
def Ahead (n : ℕ) (first : Bool) (part : Part) (cs : List Char) : Prop :=
  ∃ blanks rest, cs = blanks ++ (between first ++ rest) ∧ Blanks blanks ∧ Derives n part rest

theorem Derives.elements_cons {n : ℕ} {j : Json} {js : List Json} {front cs behind : List Char}
    (before : Blanks front) (value : Derives n (.value j) cs)
    (others : js = [] ∧ Blanks behind ∨ Ahead n false (.elements js) behind) :
    Derives n (.elements (j :: js)) (front ++ (cs ++ behind)) := by
  obtain ⟨rfl, blank⟩ | ⟨blanks, rest, rfl, blank, more⟩ := others
  · exact .lastElement (.element before value blank)
  · have row := Derives.moreElements (.element before value blank) more
    simp only [List.append_assoc] at row
    exact row

theorem Derives.members_cons {n : ℕ} {j : Json} {front key text back space cs behind : List Char}
    (before : Blanks front) (isKey : Spelling key text) (isBack : Blanks back)
    (isSpace : Blanks space) (value : Derives n (.value j) cs)
    (others : Blanks behind ∨ Ahead n false .members behind) :
    Derives n .members
      (front ++ '"' :: (key ++ '"' :: (back ++ ':' :: (space ++ (cs ++ behind))))) := by
  obtain blank | ⟨blanks, rest, rfl, blank, more⟩ := others
  · exact .lastMember (.member before isKey isBack (.element isSpace value blank))
  · have row := Derives.moreMembers
      (.member before isKey isBack (.element isSpace value blank)) more
    simp only [List.append_assoc, List.cons_append] at row
    exact row

theorem Derives.element_behind {n : ℕ} {j : Json} {blanks cs : List Char} (blank : Blanks blanks)
    (derives : Derives n (.element j) cs) : Derives n (.element j) (blanks ++ cs) := by
  cases derives with
  | element before value behind =>
    rw [← List.append_assoc]
    exact .element (blank.append before) value behind

theorem Derives.elements_behind {n : ℕ} {js : List Json} {blanks cs : List Char}
    (blank : Blanks blanks) (derives : Derives n (.elements js) cs) :
    Derives n (.elements js) (blanks ++ cs) := by
  cases derives with
  | lastElement element => exact .lastElement (.element_behind blank element)
  | moreElements element others =>
    rw [← List.append_assoc]
    exact .moreElements (.element_behind blank element) others

theorem Derives.members_behind {n : ℕ} {blanks cs : List Char}
    (blank : Blanks blanks) (derives : Derives n .members cs) :
    Derives n .members (blanks ++ cs) := by
  have member {cs : List Char} (derives : Derives n .member cs) :
      Derives n .member (blanks ++ cs) := by
    cases derives with
    | member before isKey behind element =>
      rw [← List.append_assoc]
      exact .member (blank.append before) isKey behind element
  cases derives with
  | lastMember first => exact .lastMember (member first)
  | moreMembers first others =>
    rw [← List.append_assoc]
    exact .moreMembers (member first) others

theorem readSeparator_sound {closing : Char} {missing : Cause} {first : Bool}
    (h : readSeparator closing missing first i = .ok i') :
    ∃ blanks, i.rest = between first ++ (blanks ++ i'.rest) ∧ Blanks blanks := by
  unfold readSeparator at h
  split at h
  · next isFirst =>
    cases h
    exact ⟨[], by rw [between, if_pos isFirst]; rfl, blanks_nil⟩
  · next notFirst =>
    split at h
    · next rest comma =>
      obtain ⟨blanks, chars, blank⟩ := skipBlanks_sound i.drop
      dsimp only at h
      split at h
      · cases h
      · split at h
        · cases h
        · cases h
          refine ⟨blanks, ?_, blank⟩
          rw [between, if_neg notFirst, ← chars]
          simp [Input.drop, comma]
    · cases h

/-- What the values are that are read in front of more. -/
def ReadsValues (n : ℕ) (value : Input → Except Error (Json × Input)) : Prop :=
  ∀ {i i' : Input} {j : Json}, value i = .ok (j, i') → ∃ front cs,
    i.rest = front ++ (cs ++ i'.rest) ∧ Blanks front ∧ Derives n (.value j) cs

theorem readItems_sound {n fuel : ℕ} {value : Input → Except Error (Json × Input)}
    (sound : ReadsValues n value) {first : Bool} {js : List Json}
    (h : readItems value first fuel i = .ok (js, i')) : ∃ cs, i.rest = cs ++ ']' :: i'.rest ∧
      (js = [] ∧ Blanks cs ∨ Ahead n first (.elements js) cs) := by
  induction fuel generalizing i first js with
  | zero => cases h
  | succ fuel ih =>
    obtain ⟨blanks, chars, blank⟩ := skipBlanks_sound i
    unfold readItems at h
    dsimp only at h
    split at h
    · cases h
    · next closing =>
      cases h
      refine ⟨blanks, ?_, .inl ⟨rfl, blank⟩⟩
      rw [chars, closing]
      simp [Input.drop, closing]
    · obtain ⟨i₁, separator, h⟩ := exists_of_bind h
      obtain ⟨⟨j, i₂⟩, item, h⟩ := exists_of_bind h
      obtain ⟨⟨js, i₃⟩, items, h⟩ := exists_of_bind h
      cases h
      obtain ⟨space, separated, isSpace⟩ := readSeparator_sound separator
      obtain ⟨front, cs, itemChars, before, derives⟩ := sound item
      obtain ⟨behind, others, row⟩ := ih items
      refine ⟨blanks ++ (between first ++ (space ++ front ++ (cs ++ behind))), ?_,
        .inr ⟨blanks, _, rfl, blank, derives.elements_cons (isSpace.append before) row⟩⟩
      dsimp only at itemChars others
      simp only [chars, separated, itemChars, others, List.append_assoc]

theorem readColon_sound (h : readColon i = .ok i') :
    ∃ blanks, i.rest = blanks ++ ':' :: i'.rest ∧ Blanks blanks := by
  obtain ⟨blanks, chars, blank⟩ := skipBlanks_sound i
  unfold readColon at h
  dsimp only at h
  split at h
  · cases h
  · next colon =>
    cases h
    refine ⟨blanks, ?_, blank⟩
    rw [chars, colon]
    simp [Input.drop, colon]
  · cases h

theorem readMembers_sound {n fuel : ℕ} {value : Input → Except Error (Json × Input)}
    (sound : ReadsValues n value) {first : Bool} (h : readMembers value first fuel i = .ok i') :
    ∃ cs, i.rest = cs ++ '}' :: i'.rest ∧ (Blanks cs ∨ Ahead n first .members cs) := by
  induction fuel generalizing i first with
  | zero => cases h
  | succ fuel ih =>
    obtain ⟨blanks, chars, blank⟩ := skipBlanks_sound i
    unfold readMembers at h
    dsimp only at h
    split at h
    · cases h
    · next closing =>
      cases h
      refine ⟨blanks, ?_, .inl blank⟩
      rw [chars, closing]
      simp [Input.drop, closing]
    · obtain ⟨i₁, separator, h⟩ := exists_of_bind h
      obtain ⟨space, separated, isSpace⟩ := readSeparator_sound separator
      split at h
      · next rest quote =>
        obtain ⟨⟨s, i₂⟩, readKey, h⟩ := exists_of_bind h
        obtain ⟨i₃, colon, h⟩ := exists_of_bind h
        obtain ⟨⟨j, i₄⟩, item, h⟩ := exists_of_bind h
        obtain ⟨key, text, keyChars, isKey, -⟩ := readText_sound readKey
        obtain ⟨back, colonChars, isBack⟩ := readColon_sound colon
        obtain ⟨front, cs, itemChars, before, derives⟩ := sound item
        obtain ⟨behind, others, row⟩ := ih h
        refine ⟨_, ?_, .inr ⟨blanks, _, rfl, blank,
          derives.members_cons isSpace isKey isBack before row⟩⟩
        simp only [Input.drop, quote] at keyChars
        dsimp only at colonChars itemChars others
        simp only [chars, separated, quote, keyChars, colonChars, itemChars, others,
          List.append_assoc, List.cons_append]
      · cases h

theorem rest_drop {c : Char} {cs : List Char} (chars : i.rest = c :: cs) : i.drop.rest = cs := by
  rw [Input.drop, chars]

theorem exists_of_readWord {n : ℕ} {j k : Json} {c : Char} {letters tail : List Char}
    (first : i.rest = c :: tail) (h : (readWord letters i.drop).map (k, ·) = .ok (j, i'))
    (word : Derives n (.value k) (c :: letters)) :
    ∃ cs, i.rest = cs ++ i'.rest ∧ Derives n (.value j) cs := by
  obtain ⟨i₁, others, same⟩ := exists_of_map h
  cases same
  have others := readWord_sound others
  rw [rest_drop first] at others
  exact ⟨_, by rw [first, others]; rfl, word⟩

/-- What is read as a document is a spelling of it, if that is so for what its brackets hold. -/
theorem readsValues_of_inner {n : ℕ}
    (inner : ∀ m, n = m + 1 → ReadsValues m (readValue (m + 1))) :
    ReadsValues n (readValue (n + 1)) := by
  intro i i' j h
  obtain ⟨blanks, chars, blank⟩ := skipBlanks_sound i
  suffices ∃ cs, i.skipBlanks.rest = cs ++ i'.rest ∧ Derives n (.value j) cs by
    obtain ⟨cs, same, derives⟩ := this
    exact ⟨blanks, cs, by rw [chars, same], blank, derives⟩
  unfold readValue at h
  dsimp only at h
  generalize i.skipBlanks = i at h
  split at h
  · cases h
  · next letter => exact exists_of_readWord letter h .nullWord
  · next letter => exact exists_of_readWord letter h .trueWord
  · next letter => exact exists_of_readWord letter h .falseWord
  · next quote =>
    obtain ⟨⟨s, i₁⟩, text, same⟩ := exists_of_map h
    cases same
    obtain ⟨cs, text, others, spelling, rfl⟩ := readText_sound text
    rw [rest_drop quote] at others
    exact ⟨_, by rw [quote, others]; simp, .text spelling⟩
  · next minus =>
    obtain ⟨cs, x, others, size, rfl⟩ := readNumber_sound h
    rw [rest_drop minus] at others
    exact ⟨_, by rw [minus, others]; rfl, .number (.negative size)⟩
  · next bracket =>
    split at h
    · next m depth =>
      obtain rfl : n = m + 1 := Nat.succ.inj depth
      obtain ⟨⟨js, i₁⟩, items, same⟩ := exists_of_map h
      cases same
      obtain ⟨cs, others, row⟩ := readItems_sound (inner m rfl) items
      rw [rest_drop bracket] at others
      obtain ⟨rfl, blank⟩ | ⟨blanks, rest, rfl, blank, row⟩ := row
      · exact ⟨_, by rw [bracket, others]; simp, .noElements blank⟩
      · exact ⟨_, by rw [bracket, others]; simp [between], .array (.elements_behind blank row)⟩
    · cases h
  · next bracket =>
    split at h
    · next m depth =>
      obtain rfl : n = m + 1 := Nat.succ.inj depth
      obtain ⟨i₁, items, same⟩ := exists_of_map h
      cases same
      obtain ⟨cs, others, row⟩ := readMembers_sound (inner m rfl) items
      rw [rest_drop bracket] at others
      obtain blank | ⟨blanks, rest, rfl, blank, row⟩ := row
      · exact ⟨_, by rw [bracket, others]; simp, .noMembers blank⟩
      · exact ⟨_, by rw [bracket, others]; simp [between], .object (.members_behind blank row)⟩
    · cases h
  · next c _ _ _ _ _ _ _ _ first =>
    split at h
    · next digit =>
      obtain ⟨cs, x, others, size, rfl⟩ := readNumber_sound h
      exact ⟨_, others, .number (.positive size)⟩
    · cases h

theorem readsValues_readValue (n : ℕ) : ReadsValues n (readValue (n + 1)) := by
  induction n with
  | zero => exact readsValues_of_inner fun m none => absurd none.symm (Nat.succ_ne_zero m)
  | succ n ih =>
    refine readsValues_of_inner fun m same => ?_
    cases same
    exact ih

/-- What is read is a document. -/
theorem read_sound {text : String} {j : Json} (h : read text = .ok j) : IsDocument text j := by
  unfold read at h
  obtain ⟨⟨j, i⟩, value, h⟩ := exists_of_bind h
  obtain ⟨front, cs, chars, before, derives⟩ := readsValues_readValue 127 value
  obtain ⟨blanks, back, behind⟩ := skipBlanks_sound i
  dsimp only at h
  split at h
  · next last =>
    cases h
    have chars : text.toList = front ++ (cs ++ blanks) := by
      rw [List.isEmpty_iff] at last
      rw [last, List.append_nil] at back
      change text.toList = front ++ (cs ++ i.rest) at chars
      rw [chars, back]
    rw [IsDocument, chars]
    exact .element before derives behind
  · cases h

end BraceScript.Json
