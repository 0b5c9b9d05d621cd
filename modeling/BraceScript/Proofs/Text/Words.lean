-- What `tokenize` keeps of a text, and where it parts it: it loses the
-- punctuation and the blanks and nothing else, and only blanks part words.
import Mathlib
import BraceScript.Builtin

namespace BraceScript

namespace Text

variable {c : Char} {middle w : List Char} {ws : List (List Char)}

/-! ## Blanks part words -/

theorem pieces_eq_splitOnP (cs : List Char) : pieces cs = cs.splitOnP isBlank := by
  induction cs with
  | nil => rfl
  | cons c cs ih =>
    obtain ⟨piece, pieces, split⟩ :=
      List.exists_cons_of_ne_nil (List.splitOnP_ne_nil isBlank cs)
    rw [pieces_cons, ih, List.splitOnP_cons_eq_if_modifyHead, split]
    rfl

/-- All that is said about words here follows from this and the next two lemmas. -/
theorem words_blank (blank : isBlank c = true) (front behind : List Char) :
    words (front ++ c :: behind) = words front ++ words behind := by
  simp only [words, pieces_eq_splitOnP, List.splitOnP_append_cons _ _ blank, List.filter_append]

theorem words_unbroken (ne : w ≠ []) (unbroken : ∀ c ∈ w, isBlank c = false) : words w = [w] := by
  simp [words, pieces_eq_splitOnP, List.splitOnP_eq_singleton unbroken, ne]

/-- Blanks are lost and nothing else. -/
theorem flatten_words (cs : List Char) : (words cs).flatten = cs.filter (!isBlank ·) := by
  rw [words, List.flatten_filter_not_isEmpty]
  induction cs with
  | nil => rfl
  | cons c cs ih =>
    rw [pieces_cons, List.filter_cons, ← ih]
    cases pieces cs <;> cases blank : isBlank c <;> simp [joinPiece, blank]

theorem mem_of_mem_words {cs : List Char} (word : w ∈ words cs) (mem : c ∈ w) :
    c ∈ cs ∧ isBlank c = false := by
  have kept : c ∈ (words cs).flatten := List.mem_flatten.2 ⟨w, word, mem⟩
  rw [flatten_words, List.mem_filter] at kept
  simpa using kept

/-- Words with spaces between them are read as these words. -/
theorem words_intercalate (ne : ∀ w ∈ ws, w ≠ [])
    (unbroken : ∀ w ∈ ws, ∀ c ∈ w, isBlank c = false) :
    words ([' '].intercalate ws) = ws := by
  induction ws with
  | nil => rfl
  | cons w ws ih =>
    have first := words_unbroken (ne w List.mem_cons_self) (unbroken w List.mem_cons_self)
    have rest := ih (fun v mem => ne v (List.mem_cons_of_mem w mem))
      (fun v mem => unbroken v (List.mem_cons_of_mem w mem))
    cases ws with
    | nil => rwa [List.intercalate_singleton]
    | cons v ws =>
      rw [List.intercalate_cons_cons, List.append_assoc, List.singleton_append,
        words_blank rfl, first, rest]
      rfl

theorem mem_intercalate {between : List Char} (mem : c ∈ between.intercalate ws) :
    c ∈ between ∨ ∃ w ∈ ws, c ∈ w := by
  induction ws with
  | nil => cases mem
  | cons w ws ih =>
    by_cases last : ws = []
    · subst last
      exact .inr ⟨w, List.mem_cons_self, by simpa using mem⟩
    · rw [List.intercalate_cons_of_ne_nil last, List.mem_append, List.mem_append] at mem
      obtain (mem | mem) | mem := mem
      · exact .inr ⟨w, List.mem_cons_self, mem⟩
      · exact .inl mem
      · obtain mem | ⟨v, later, mem⟩ := ih mem
        · exact .inl mem
        · exact .inr ⟨v, List.mem_cons_of_mem w later, mem⟩

/-! ## Two characters in one word -/

/-- Among all characters of the words, the one behind `front` is `a`, the one in front of `behind`
is `b`, with `between` from the one to the other, and both are in the same word. -/
def InOneWord (ws : List (List Char)) (front : List Char) (a : Char) (between : List Char)
    (b : Char) (behind : List Char) : Prop :=
  ∃ before first last after, ws = before ++ (first ++ a :: between ++ b :: last) :: after ∧
    before.flatten ++ first = front ∧ last ++ after.flatten = behind

/-- Where one word ends and the next one begins, there both characters are ahead or both behind. -/
theorem InOneWord.boundary {a b : Char} {between : List Char} {before after : List (List Char)}
    (one : InOneWord (before ++ after) front a between b behind) :
    before.flatten.length ≤ front.length ∨
      front.length + between.length + 2 ≤ before.flatten.length := by
  obtain ⟨earlier, first, last, later, split, rfl, -⟩ := one
  obtain ⟨rest, rfl, -⟩ | ⟨rest, rfl, whole⟩ := List.append_eq_append_iff.1 split
  · simp [Nat.add_assoc]
  · obtain ⟨rfl, -⟩ | ⟨rest, rfl, -⟩ := List.cons_eq_append_iff.1 whole
    · simp
    · right
      simp only [List.flatten_append, List.flatten_cons, List.length_append, List.length_cons]
      omega

/-- What comes before a stretch of a text gives whole words, and the beginning of the word that
the stretch is in. -/
theorem exists_words_before (front : List Char) : ∃ before first,
    before.flatten ++ first = front.filter (!isBlank ·) ∧ (∀ c ∈ first, isBlank c = false) ∧
    ∀ rest, words (front ++ rest) = before ++ words (first ++ rest) := by
  induction front using List.reverseRecOn with
  | nil => exact ⟨[], [], rfl, by simp, fun _ => rfl⟩
  | append_singleton front c ih =>
    cases blank : isBlank c with
    | true =>
      refine ⟨words front, [], ?_, by simp, fun rest => ?_⟩
      · simp [flatten_words, blank]
      · rw [List.append_assoc, List.singleton_append, words_blank blank, List.nil_append]
    | false =>
      obtain ⟨before, first, kept, unbroken, split⟩ := ih
      refine ⟨before, first ++ [c], ?_, ?_, fun rest => ?_⟩
      · rw [← List.append_assoc, kept]
        simp [blank]
      · simpa [or_imp, forall_and, blank] using unbroken
      · rw [List.append_assoc, split, List.append_assoc]

/-- What comes behind it gives the end of that word, and whole words. -/
theorem exists_words_behind (behind : List Char) : ∃ last after,
    last ++ after.flatten = behind.filter (!isBlank ·) ∧ (∀ c ∈ last, isBlank c = false) ∧
    ∀ rest, words (rest ++ behind) = words (rest ++ last) ++ after := by
  induction behind with
  | nil => exact ⟨[], [], rfl, by simp, fun _ => by simp⟩
  | cons c behind ih =>
    cases blank : isBlank c with
    | true =>
      refine ⟨[], words behind, ?_, by simp, fun rest => ?_⟩
      · simp [flatten_words, blank]
      · rw [words_blank blank, List.append_nil]
    | false =>
      obtain ⟨last, after, kept, unbroken, split⟩ := ih
      refine ⟨c :: last, after, ?_, ?_, fun rest => ?_⟩
      · rw [List.cons_append, kept]
        simp [blank]
      · simpa [blank] using unbroken
      · have more := split (rest ++ [c])
        simpa using more

/-- A stretch without a blank is inside of one word. -/
theorem exists_word_around (ne : middle ≠ []) (unbroken : ∀ c ∈ middle, isBlank c = false)
    (front behind : List Char) : ∃ before first last after,
    words (front ++ middle ++ behind) = before ++ (first ++ middle ++ last) :: after ∧
    before.flatten ++ first = front.filter (!isBlank ·) ∧
    last ++ after.flatten = behind.filter (!isBlank ·) := by
  obtain ⟨before, first, kept, unbrokenFirst, splitBefore⟩ := exists_words_before front
  obtain ⟨last, after, kept', unbrokenLast, splitBehind⟩ := exists_words_behind behind
  refine ⟨before, first, last, after, ?_, kept, kept'⟩
  have word : words (first ++ middle ++ last) = [first ++ middle ++ last] := by
    refine words_unbroken (by simp [ne]) fun c mem => ?_
    simp only [List.mem_append] at mem
    obtain (mem | mem) | mem := mem
    · exact unbrokenFirst c mem
    · exact unbroken c mem
    · exact unbrokenLast c mem
  calc words (front ++ middle ++ behind)
      = words (front ++ (middle ++ last)) ++ after := by rw [splitBehind, List.append_assoc]
    _ = before ++ words (first ++ middle ++ last) ++ after := by
        rw [splitBefore, List.append_assoc first]
    _ = before ++ (first ++ middle ++ last) :: after := by
        rw [word, List.append_assoc, List.singleton_append]

/-- Two characters that are no blanks are in one word if and only if no blank is between them. -/
theorem inOneWord_words_iff {a b : Char} (ha : isBlank a = false) (hb : isBlank b = false)
    (front between behind : List Char) :
    InOneWord (words (front ++ a :: between ++ b :: behind)) (front.filter (!isBlank ·)) a
      (between.filter (!isBlank ·)) b (behind.filter (!isBlank ·)) ↔
    ∀ c ∈ between, isBlank c = false := by
  constructor
  · intro one c mem
    refine Bool.eq_false_iff.2 fun blank => ?_
    obtain ⟨m, m', rfl⟩ := List.append_of_mem mem
    -- The words before the blank end between the two characters.
    have parted : words (front ++ a :: (m ++ c :: m') ++ b :: behind) =
        words (front ++ a :: m) ++ words (m' ++ b :: behind) := by
      simpa using words_blank blank (front ++ a :: m) (m' ++ b :: behind)
    rw [parted] at one
    have boundary := one.boundary
    rw [flatten_words] at boundary
    simp only [List.filter_append, List.filter_cons, ha, blank, List.length_append,
      List.length_cons, Bool.not_false, Bool.not_true, if_true, Bool.false_eq_true, if_false]
      at boundary
    omega
  · intro unbroken
    have all : between.filter (!isBlank ·) = between :=
      List.filter_eq_self.2 fun c mem => by simpa using unbroken c mem
    have inWord : ∀ c ∈ a :: between ++ [b], isBlank c = false := by
      simpa [or_imp, forall_and, ha, hb] using unbroken
    obtain ⟨before, first, last, after, split, kept, kept'⟩ :=
      exists_word_around (by simp) inWord front behind
    refine ⟨before, first, last, after, ?_, kept, kept'⟩
    simpa [all] using split

end Text

/-! ## Punctuation -/

/-- Everything visible in ASCII is punctuation, but for letters, digits and the space. -/
theorem isPunctuation_iff {c : Char} :
    isPunctuation c = true ↔ 32 < c.toNat ∧ c.toNat < 127 ∧ c.isAlphanum = false := by
  simp only [isPunctuation, Char.isAlphanum, Char.isAlpha, Char.isUpper, Char.isLower,
    Char.isDigit, Char.le_def, UInt32.le_iff_toNat_le, Char.toNat, Bool.or_eq_true,
    Bool.and_eq_true, decide_eq_true_eq, Bool.or_eq_false_iff, Bool.and_eq_false_iff,
    decide_eq_false_iff_not, GE.ge, UInt32.reduceToNat, Char.reduceVal]
  omega

theorem not_isPunctuation_of_isBlank {c : Char} (blank : Text.isBlank c = true) :
    isPunctuation c = false := by
  refine Bool.eq_false_iff.2 fun mark => ?_
  obtain ⟨above, below, -⟩ := isPunctuation_iff.1 mark
  simp only [Text.isBlank, Bool.or_eq_true, Bool.and_eq_true, decide_eq_true_eq,
    beq_iff_eq] at blank
  omega

/-- A character that `tokenize` keeps. -/
def isKept (c : Char) : Bool := !isPunctuation c && !Text.isBlank c

theorem isKept_iff {c : Char} :
    isKept c = true ↔ isPunctuation c = false ∧ Text.isBlank c = false := by
  simp [isKept]

theorem filter_isKept (cs : List Char) :
    (cs.filter (!isPunctuation ·)).filter (!Text.isBlank ·) = cs.filter isKept := by
  rw [List.filter_filter]
  exact List.filter_congr fun c _ => Bool.and_comm _ _

/-! ## The words of a text -/

theorem map_toList_splitWords (text : String) : (splitWords text).map String.toList =
    Text.words (text.toList.filter (!isPunctuation ·)) := by
  rw [splitWords, List.map_map, String.toList_comp_ofList, List.map_id]

theorem join_splitWords (text : String) :
    String.join (splitWords text) = String.ofList (text.toList.filter isKept) := by
  rw [← String.toList_inj, String.toList_join, String.toList_ofList, List.flatMap_def,
    map_toList_splitWords, Text.flatten_words, filter_isKept]

theorem of_mem_splitWords {text w : String} (word : w ∈ splitWords text) :
    w ≠ "" ∧ ∀ c ∈ w.toList, isKept c = true := by
  obtain ⟨cs, mem, rfl⟩ := List.mem_map.1 word
  refine ⟨by simpa using Text.words_ne_nil mem, fun c inWord => ?_⟩
  rw [String.toList_ofList] at inWord
  obtain ⟨plain, unbroken⟩ := Text.mem_of_mem_words mem inWord
  exact isKept_iff.2 ⟨by simpa using (List.mem_filter.1 plain).2, unbroken⟩

theorem splitWords_intercalate {ws : List String} (ne : ∀ w ∈ ws, w ≠ "")
    (kept : ∀ w ∈ ws, ∀ c ∈ w.toList, isKept c = true) :
    splitWords (" ".intercalate ws) = ws := by
  have plain : (" ".intercalate ws).toList.filter (!isPunctuation ·) =
      [' '].intercalate (ws.map String.toList) := by
    rw [String.toList_intercalate]
    refine List.filter_eq_self.2 ?_
    intro c mem
    obtain space | ⟨cs, chars, mem⟩ := Text.mem_intercalate mem
    · rw [List.mem_singleton.1 space]
      rfl
    · obtain ⟨w, word, rfl⟩ := List.mem_map.1 chars
      simpa using (isKept_iff.1 (kept w word c mem)).1
  have words : Text.words ([' '].intercalate (ws.map String.toList)) = ws.map String.toList := by
    refine Text.words_intercalate (by simpa using ne) fun cs chars c mem => ?_
    obtain ⟨w, word, rfl⟩ := List.mem_map.1 chars
    exact (isKept_iff.1 (kept w word c mem)).2
  rw [splitWords, plain, words, List.map_map, String.ofList_comp_toList, List.map_id]

theorem inOneWord_splitWords_iff {text : String} {front between behind : List Char} {a b : Char}
    (split : text.toList = front ++ a :: between ++ b :: behind) (ha : isKept a = true)
    (hb : isKept b = true) :
    Text.InOneWord ((splitWords text).map String.toList) (front.filter isKept) a
      (between.filter isKept) b (behind.filter isKept) ↔
    ∀ c ∈ between, Text.isBlank c = false := by
  rw [isKept_iff] at ha hb
  have stripped : text.toList.filter (!isPunctuation ·) =
      front.filter (!isPunctuation ·) ++ a :: between.filter (!isPunctuation ·) ++
        b :: behind.filter (!isPunctuation ·) := by
    simp [split, ha, hb]
  rw [map_toList_splitWords, stripped, ← filter_isKept, ← filter_isKept, ← filter_isKept,
    Text.inOneWord_words_iff ha.2 hb.2]
  -- No blank goes with the punctuation.
  refine ⟨fun unbroken c mem => ?_, fun unbroken c mem => unbroken c (List.mem_filter.1 mem).1⟩
  refine Bool.eq_false_iff.2 fun blank => Bool.eq_false_iff.1 (unbroken c ?_) blank
  exact List.mem_filter.2 ⟨mem, by simp [not_isPunctuation_of_isBlank blank]⟩

/-! ## The words of a value -/

/-- The text of a value that the functions of a text take: a number is taken as it is shown. -/
def Value.asText? : Value → Option String
  | .text s => some s
  | .number x => some (numberText x)
  | _ => none

/-- `tokenize` takes the value, whatever the heap is, and makes a new array of these words. -/
def Value.Tokenizes (v : Value) (ws : List String) : Prop :=
  ∀ h : Heap, ∃ after, TextFunction.tokenize.apply h v = .ok (.array h.size, after) ∧
    after.size = h.size + 1 ∧
    ∀ handle, after.items handle =
      if handle = h.size then (ws.map .text).toArray else h.items handle

theorem Value.tokenizes_splitWords {v : Value} {text : String} (taken : v.asText? = some text) :
    v.Tokenizes (splitWords text) := by
  intro h
  refine ⟨(h.alloc ((splitWords text).map .text)).2, ?_, ?_, fun handle => h.items_alloc _ handle⟩
  · cases v <;> cases taken <;> rfl
  · simp [Heap.alloc, Heap.size]

/-- Whatever text or number `tokenize` takes, it makes an array of words, none of them empty or with
a blank or punctuation in it. One behind the other they are what is left of the text without
these. Two characters that are kept are in one word if and only if no blank stands between them in
the text. Of its words, with one space from each to the next, `tokenize` makes the same words. -/
theorem words_lose_only_blanks_and_punctuation {v : Value} {text : String}
    (taken : v.asText? = some text) :
    v.Tokenizes (splitWords text) ∧
    (∀ w ∈ splitWords text, w ≠ "" ∧
      ∀ c ∈ w.toList, isPunctuation c = false ∧ Text.isBlank c = false) ∧
    String.join (splitWords text) = String.ofList (text.toList.filter isKept) ∧
    (∀ front a between b behind, text.toList = front ++ a :: between ++ b :: behind →
      isKept a = true → isKept b = true →
      (Text.InOneWord ((splitWords text).map String.toList) (front.filter isKept) a
        (between.filter isKept) b (behind.filter isKept) ↔
      ∀ c ∈ between, Text.isBlank c = false)) ∧
    (Value.text (" ".intercalate (splitWords text))).Tokenizes (splitWords text) := by
  refine ⟨Value.tokenizes_splitWords taken, fun w word => ?_, join_splitWords text,
    fun front a between b behind split ha hb => inOneWord_splitWords_iff split ha hb, ?_⟩
  · obtain ⟨ne, kept⟩ := of_mem_splitWords word
    exact ⟨ne, fun c mem => isKept_iff.1 (kept c mem)⟩
  · have again : splitWords (" ".intercalate (splitWords text)) = splitWords text :=
      splitWords_intercalate (fun w word => (of_mem_splitWords word).1)
        fun w word => (of_mem_splitWords word).2
    have joined := Value.tokenizes_splitWords
      (v := .text (" ".intercalate (splitWords text))) rfl
    rwa [again] at joined

/-- An apostrophe and a hyphen do not part a word, and leave nothing where they stand alone; a
blank that is wider than a space does. -/
theorem a_hyphen_joins_and_a_wide_blank_parts :
    let text := "It's -\u2003 co-op"
    let words := [['I', 't', 's'], ['c', 'o', 'o', 'p']]
    (Value.text text).asText? = some text ∧ (Value.text text).Tokenizes ["Its", "coop"] ∧
    text.toList = "It's -\u2003 c".toList ++ 'o' :: ['-'] ++ 'o' :: ['p'] ∧
    Text.InOneWord words ['I', 't', 's', 'c'] 'o' [] 'o' ['p'] ∧
    text.toList = "It'".toList ++ 's' :: " -\u2003 ".toList ++ 'c' :: "o-op".toList ∧
    ¬ Text.InOneWord words ['I', 't'] 's' [] 'c' ['o', 'o', 'p'] ∧
    (Value.text "Its coop").Tokenizes ["Its", "coop"] ∧
    (Value.number (-0.5)).asText? = some "-0.5" ∧ (Value.number (-0.5)).Tokenizes ["05"] := by
  intro text words
  have split : splitWords text = ["Its", "coop"] := by decide
  have number : (Value.number (-0.5)).asText? = some "-0.5" := by decide +kernel
  have joined : text.toList = "It's -\u2003 c".toList ++ 'o' :: ['-'] ++ 'o' :: ['p'] := by decide
  have parted :
      text.toList = "It'".toList ++ 's' :: " -\u2003 ".toList ++ 'c' :: "o-op".toList := by decide
  obtain ⟨tokenizes, -, -, together, again⟩ :=
    words_lose_only_blanks_and_punctuation (v := .text text) rfl
  have ofNumber := (words_lose_only_blanks_and_punctuation number).1
  rw [split] at tokenizes together again
  refine ⟨rfl, tokenizes, joined, ?_, parted, fun one => ?_, again, number, ofNumber⟩
  · exact (together _ _ _ _ _ joined (by decide) (by decide)).2
      (List.forall_mem_singleton.2 (by decide))
  · have unbroken := (together _ _ _ _ _ parted (by decide) (by decide)).1 one
    exact absurd (unbroken ' ' (by decide)) (by decide)

end BraceScript
