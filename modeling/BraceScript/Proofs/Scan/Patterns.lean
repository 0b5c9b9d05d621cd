-- The patterns that tokens match, and what stands between them: each one as
-- a language over characters. Texts that begin with the same character can
-- only match patterns of one class, so few of them compete at any place.
import BraceScript.Proofs.Scan.Fillings
import BraceScript.Proofs.Scan.Words
import Mathlib.Computability.Language

namespace BraceScript

open scoped Computability

/-! ## Languages -/

/-- The texts of one character of a class. -/
def oneOf (p : Char → Bool) : Language Char := {text | ∃ c, p c = true ∧ text = [c]}

/-- The one text. -/
def exactly (text : List Char) : Language Char := {text}

section

variable {p : Char → Bool} {text front : List Char} {L : Language Char}

@[simp] theorem mem_exactly : text ∈ exactly front ↔ text = front := Iff.rfl

theorem mem_exactly_mul : text ∈ exactly front * L ↔ ∃ more ∈ L, front ++ more = text := by
  rw [Language.mem_mul]
  constructor
  · rintro ⟨_, rfl, more, hmore, rfl⟩
    exact ⟨more, hmore, rfl⟩
  · rintro ⟨more, hmore, rfl⟩
    exact ⟨front, rfl, more, hmore, rfl⟩

theorem mem_oneOf_mul :
    text ∈ oneOf p * L ↔ ∃ c more, p c = true ∧ more ∈ L ∧ c :: more = text := by
  rw [Language.mem_mul]
  constructor
  · rintro ⟨_, ⟨c, hc, rfl⟩, more, hmore, rfl⟩
    exact ⟨c, more, hc, hmore, rfl⟩
  · rintro ⟨c, more, hc, hmore, rfl⟩
    exact ⟨[c], ⟨c, hc, rfl⟩, more, hmore, rfl⟩

theorem mem_kstar_oneOf : text ∈ (oneOf p)∗ ↔ ∀ c ∈ text, p c = true := by
  rw [Language.mem_kstar]
  constructor
  · rintro ⟨pieces, rfl, each⟩ c hc
    obtain ⟨piece, hpiece, hc⟩ := List.mem_flatten.1 hc
    obtain ⟨c', hc', rfl⟩ := each piece hpiece
    rwa [List.mem_singleton.1 hc]
  · intro all
    have whole : text = (text.map fun c => [c]).flatten := by
      rw [← List.flatMap_def, List.flatMap_singleton']
    refine ⟨_, whole, fun piece hpiece => ?_⟩
    obtain ⟨c, hc, rfl⟩ := List.mem_map.1 hpiece
    exact ⟨c, all c hc, rfl⟩

theorem ne_of_not_mem {q : Char} (lacks : q ∉ text) : ∀ c ∈ text, (c != q) = true := by
  intro c hc
  simpa using fun (same : c = q) => lacks (same ▸ hc)

theorem mem_kstar_but {q : Char} : text ∈ (oneOf (· != q))∗ ↔ q ∉ text := by
  rw [mem_kstar_oneOf]
  refine ⟨fun all mem => ?_, ne_of_not_mem⟩
  simpa using all q mem

end

/-! ## Patterns -/

/-- What is looked for at each place of a text. -/
inductive Pattern where
  | blanks
  | comment
  | keyword (keyword : Keyword)
  | boolean (value : Bool)
  | number
  | text (quote : Char) (h : isQuote quote = true)
  | openText (quote : Char) (h : isQuote quote = true)
  | name
  | sign (sign : Sign)

/-- The texts that a pattern matches. -/
def Pattern.language : Pattern → Language Char
  | .blanks => oneOf isFiller * (oneOf isFiller)∗
  | .comment => exactly ['/', '/'] * (oneOf (· != '\n'))∗
  | .keyword k => exactly k.spelling.toList
  | .boolean b => exactly (Token.Kind.booleanText b).toList
  | .number =>
    oneOf Number.isDigit * (oneOf Number.isDigit)∗ * (1 + exactly ['.'] * (oneOf Number.isDigit)∗)
  | .text q _ => exactly [q] * ((oneOf (· != q))∗ * exactly [q])
  | .openText q _ => exactly [q] * (oneOf (· != q))∗
  | .name => oneOf beginsWord * (oneOf continuesWord)∗
  | .sign s => exactly s.chars

/-- What a text means that a pattern has matched. -/
def Pattern.piece (text : List Char) : Pattern → Piece
  | .blanks | .comment => .filler
  | .keyword k => .token (.keyword k)
  | .boolean b => .token (.boolean b)
  | .number =>
    match Number.ofText? text with
    | some x => .token (.number x)
    | none => .mistake (.unexpected (text.headD '\x00'))
  | .text _ _ => .token (.text (String.ofList text.tail.dropLast))
  | .openText q _ => .mistake (.unterminated q)
  | .name =>
    match restrictedHint? (String.ofList text) with
    | some hint => .mistake (.restricted (String.ofList text) hint)
    | none => .token (.name (String.ofList text))
  | .sign s => .token (.sign s)

variable {p p' : Pattern} {text after : List Char}

theorem mem_blanks : text ∈ Pattern.blanks.language ↔
    text ≠ [] ∧ ∀ c ∈ text, isFiller c = true := by
  rw [Pattern.language, mem_oneOf_mul]
  constructor
  · rintro ⟨c, more, hc, hmore, rfl⟩
    exact ⟨by simp, List.forall_mem_cons.2 ⟨hc, mem_kstar_oneOf.1 hmore⟩⟩
  · rintro ⟨some, all⟩
    obtain ⟨c, more, rfl⟩ := List.exists_cons_of_ne_nil some
    obtain ⟨hc, hmore⟩ := List.forall_mem_cons.1 all
    exact ⟨c, more, hc, mem_kstar_oneOf.2 hmore, rfl⟩

theorem mem_name : text ∈ Pattern.name.language ↔
    ∃ c more, beginsWord c = true ∧ (∀ d ∈ more, continuesWord d = true) ∧ c :: more = text := by
  simp only [Pattern.language, mem_oneOf_mul, mem_kstar_oneOf]

theorem mem_comment : text ∈ Pattern.comment.language ↔
    ∃ more, '\n' ∉ more ∧ '/' :: '/' :: more = text := by
  simp only [Pattern.language, mem_exactly_mul, mem_kstar_but]
  rfl

theorem mem_text {q : Char} (h : isQuote q = true) : text ∈ (Pattern.text q h).language ↔
    ∃ body, q ∉ body ∧ q :: (body ++ [q]) = text := by
  rw [Pattern.language, mem_exactly_mul]
  constructor
  · rintro ⟨_, hmore, rfl⟩
    obtain ⟨body, hbody, _, rfl, rfl⟩ := Language.mem_mul.1 hmore
    exact ⟨body, mem_kstar_but.1 hbody, rfl⟩
  · rintro ⟨body, hbody, rfl⟩
    exact ⟨_, Language.mem_mul.2 ⟨body, mem_kstar_but.2 hbody, _, rfl, rfl⟩, rfl⟩

theorem mem_openText {q : Char} (h : isQuote q = true) : text ∈ (Pattern.openText q h).language ↔
    ∃ body, q ∉ body ∧ q :: body = text := by
  simp only [Pattern.language, mem_exactly_mul, mem_kstar_but]
  rfl

/-- The pattern of numbers matches just the numerals. -/
theorem mem_number : text ∈ Pattern.number.language ↔ ∃ n : Number.Numeral, n.chars = text := by
  rw [Pattern.language, Language.mem_mul]
  constructor
  · rintro ⟨whole, hwhole, tail, htail, rfl⟩
    obtain ⟨c, more, hc, hmore, rfl⟩ := mem_oneOf_mul.1 hwhole
    have digits : ∀ d ∈ c :: more, Number.isDigit d = true :=
      List.forall_mem_cons.2 ⟨hc, mem_kstar_oneOf.1 hmore⟩
    rcases htail with rfl | point
    · exact ⟨⟨c :: more, none, by simp, digits, by simp⟩, rfl⟩
    · obtain ⟨fraction, hfraction, rfl⟩ := mem_exactly_mul.1 point
      refine ⟨⟨c :: more, some fraction, by simp, digits, ?_⟩, rfl⟩
      rintro _ ⟨⟩
      exact mem_kstar_oneOf.1 hfraction
  · rintro ⟨n, rfl⟩
    obtain ⟨c, more, h⟩ := List.exists_cons_of_ne_nil n.nonempty
    have digits := n.whole_digits
    refine ⟨n.whole, ?_, n.tail, ?_, rfl⟩
    · rw [h] at digits ⊢
      obtain ⟨hc, hmore⟩ := List.forall_mem_cons.1 digits
      exact mem_oneOf_mul.2 ⟨c, more, hc, mem_kstar_oneOf.2 hmore, rfl⟩
    · unfold Number.Numeral.tail
      cases hf : n.fraction with
      | none => exact .inl rfl
      | some fraction =>
        exact .inr (mem_exactly_mul.2
          ⟨fraction, mem_kstar_oneOf.2 (n.fraction_digits fraction hf), rfl⟩)

/-! ## Classes -/

/-- What the first character of a piece says about it. -/
inductive CharClass where
  | filler | digit | word | quote | other
deriving DecidableEq

/-- The class of a character. -/
def CharClass.of (c : Char) : CharClass :=
  if isFiller c then .filler
  else if Number.isDigit c then .digit
  else if beginsWord c then .word
  else if isQuote c then .quote
  else .other

/-- The class of the first character of all that a pattern matches. -/
def Pattern.charClass : Pattern → CharClass
  | .blanks => .filler
  | .number => .digit
  | .keyword _ | .boolean _ | .name => .word
  | .text .. | .openText .. => .quote
  | .comment | .sign _ => .other

theorem class_of_isDigit {c : Char} (digit : Number.isDigit c = true) :
    CharClass.of c = .digit := by
  have filler := not_isFiller_of_continuesWord (c := c) (by simp [continuesWord, digit])
  simp [CharClass.of, filler, digit]

theorem class_of_beginsWord {c : Char} (begins : beginsWord c = true) :
    CharClass.of c = .word := by
  have filler := not_isFiller_of_continuesWord (c := c) (by simp [continuesWord, begins])
  simp [CharClass.of, filler, not_isDigit_of_beginsWord begins, begins]

theorem class_of_isQuote {c : Char} (quote : isQuote c = true) : CharClass.of c = .quote := by
  simp only [isQuote, Bool.or_eq_true, beq_iff_eq] at quote
  rcases quote with (rfl | rfl) | rfl <;> decide

theorem keyword_mem_name (k : Keyword) : k.spelling.toList ∈ Pattern.name.language := by
  obtain ⟨c, more, whole, begins, word, -⟩ := isWord_keyword k
  exact mem_name.2 ⟨c, more, begins, by simpa using word, whole.symm⟩

theorem boolean_mem_name (b : Bool) :
    (Token.Kind.booleanText b).toList ∈ Pattern.name.language := by
  cases b with
  | true => exact mem_name.2 ⟨'t', ['r', 'u', 'e'], rfl, List.all_eq_true.1 rfl, rfl⟩
  | false => exact mem_name.2 ⟨'f', ['a', 'l', 's', 'e'], rfl, List.all_eq_true.1 rfl, rfl⟩

/-- Whatever matches has a first character, and that has the class of the pattern. -/
theorem class_of_mem (h : text ∈ p.language) :
    ∃ c more, text = c :: more ∧ CharClass.of c = p.charClass := by
  have word (h : text ∈ Pattern.name.language) :
      ∃ c more, text = c :: more ∧ CharClass.of c = .word := by
    obtain ⟨c, more, begins, -, rfl⟩ := mem_name.1 h
    exact ⟨c, more, rfl, class_of_beginsWord begins⟩
  cases p with
  | blanks =>
    obtain ⟨some, all⟩ := mem_blanks.1 h
    obtain ⟨c, more, rfl⟩ := List.exists_cons_of_ne_nil some
    exact ⟨c, more, rfl, by simp [CharClass.of, Pattern.charClass, all c]⟩
  | comment =>
    obtain ⟨more, -, rfl⟩ := mem_comment.1 h
    exact ⟨'/', '/' :: more, rfl, rfl⟩
  | keyword k =>
    obtain rfl := mem_exactly.1 h
    exact word (keyword_mem_name k)
  | boolean b =>
    obtain rfl := mem_exactly.1 h
    exact word (boolean_mem_name b)
  | number =>
    obtain ⟨n, rfl⟩ := mem_number.1 h
    obtain ⟨c, more, whole, digit⟩ := n.exists_cons
    exact ⟨c, more, whole, class_of_isDigit digit⟩
  | text q hq =>
    obtain ⟨body, -, rfl⟩ := (mem_text hq).1 h
    exact ⟨q, _, rfl, class_of_isQuote hq⟩
  | openText q hq =>
    obtain ⟨body, -, rfl⟩ := (mem_openText hq).1 h
    exact ⟨q, _, rfl, class_of_isQuote hq⟩
  | name => exact word h
  | sign s =>
    obtain rfl := mem_exactly.1 h
    cases s <;> exact ⟨_, _, rfl, rfl⟩

/-! ## The longest match -/

/-- The text matches a pattern, and nothing longer does of what begins there. -/
structure Longest (text after : List Char) : Prop where
  found : ∃ p : Pattern, text ∈ p.language
  longest : ∀ (p : Pattern), ∀ more ∈ p.language, more <+: text ++ after →
    more.length ≤ text.length

/-- The pattern has made the longest match. A word with a meaning of its own is no name. -/
structure Pattern.Matches (p : Pattern) (text after : List Char) : Prop where
  mem : text ∈ p.language
  longest : Longest text after
  first : p = .name → (∀ k : Keyword, text ≠ k.spelling.toList) ∧
    ∀ b, text ≠ (Token.Kind.booleanText b).toList

/-- There is just one longest match. -/
theorem Longest.unique {text' after' : List Char} (h : Longest text after)
    (h' : Longest text' after') (same : text ++ after = text' ++ after') :
    text = text' ∧ after = after' := by
  obtain ⟨p, mem⟩ := h.found
  obtain ⟨p', mem'⟩ := h'.found
  have le := h'.longest p text mem (same ▸ List.prefix_append ..)
  have ge := h.longest p' text' mem' (same ▸ List.prefix_append ..)
  exact List.append_inj same (Nat.le_antisymm le ge)

theorem Keyword.spelling_injective {k k' : Keyword} (h : k.spelling = k'.spelling) : k = k' := by
  have word := Keyword.ofWord?_spelling k
  rw [h, Keyword.ofWord?_spelling] at word
  exact (Option.some.inj word).symm

theorem keyword_ne_boolean (k : Keyword) (b : Bool) :
    k.spelling.toList ≠ (Token.Kind.booleanText b).toList := by
  have all : ∀ k ∈ Keyword.all, ∀ b, k.spelling.toList ≠ (Token.Kind.booleanText b).toList := by
    decide +kernel
  exact all k k.mem_all b

theorem booleanText_injective : ∀ b b' : Bool,
    (Token.Kind.booleanText b).toList = (Token.Kind.booleanText b').toList → b = b' := by
  decide

theorem sign_ne_comment (s : Sign) (more : List Char) : s.chars ≠ '/' :: '/' :: more := by
  cases s <;> simp [Sign.chars]

/-- A text in quotes that is not closed has no second quote. -/
theorem text_not_open {q q' : Char} {hq : isQuote q = true} {hq' : isQuote q' = true}
    (h : text ∈ (Pattern.text q hq).language) : text ∉ (Pattern.openText q' hq').language := by
  intro open_
  obtain ⟨body, -, rfl⟩ := (mem_text hq).1 h
  obtain ⟨body', none, same⟩ := (mem_openText hq').1 open_
  obtain ⟨rfl, rfl⟩ := List.cons.inj same
  exact none (by simp)

/-- No two patterns make the same match. -/
theorem Pattern.Matches.unique (h : p.Matches text after) (h' : p'.Matches text after) :
    p = p' := by
  have same : p.charClass = p'.charClass := by
    obtain ⟨c, more, rfl, class_⟩ := class_of_mem h.mem
    obtain ⟨c', more', whole, class'⟩ := class_of_mem h'.mem
    cases whole
    exact class_.symm.trans class'
  have mem := h.mem
  have mem' := h'.mem
  cases p <;> cases p' <;> cases same
  case keyword.keyword k k' =>
    exact congrArg _ (Keyword.spelling_injective (String.toList_inj.1 (mem.symm.trans mem')))
  case keyword.boolean k b => exact absurd (mem.symm.trans mem') (keyword_ne_boolean k b)
  case keyword.name k => exact absurd mem ((h'.first rfl).1 k)
  case boolean.keyword b k => exact absurd (mem'.symm.trans mem) (keyword_ne_boolean k b)
  case boolean.boolean b b' =>
    exact congrArg _ (booleanText_injective b b' (mem.symm.trans mem'))
  case boolean.name b => exact absurd mem ((h'.first rfl).2 b)
  case name.keyword k => exact absurd mem' ((h.first rfl).1 k)
  case name.boolean b => exact absurd mem' ((h.first rfl).2 b)
  case text.text q hq q' hq' =>
    obtain ⟨body, -, rfl⟩ := (mem_text hq).1 mem
    obtain ⟨body', -, same⟩ := (mem_text hq').1 mem'
    cases (List.cons.inj same).1
    rfl
  case text.openText => exact absurd mem' (text_not_open mem)
  case openText.text => exact absurd mem (text_not_open mem')
  case openText.openText q hq q' hq' =>
    obtain ⟨body, -, rfl⟩ := (mem_openText hq).1 mem
    obtain ⟨body', -, same⟩ := (mem_openText hq').1 mem'
    cases (List.cons.inj same).1
    rfl
  case comment.sign s =>
    obtain ⟨more, -, whole⟩ := mem_comment.1 mem
    exact absurd (mem'.symm.trans whole.symm) (sign_ne_comment s more)
  case sign.comment s =>
    obtain ⟨more, -, whole⟩ := mem_comment.1 mem'
    exact absurd (mem.symm.trans whole.symm) (sign_ne_comment s more)
  case sign.sign s s' => exact congrArg _ (Sign.chars_injective (mem.symm.trans mem'))
  all_goals rfl

end BraceScript
