-- Scanning takes the longest match at each place: what the scanner cuts off is
-- what one of the patterns matches, and no pattern matches more.
import BraceScript.Proofs.Scan.Coverage
import BraceScript.Proofs.Scan.Patterns

namespace BraceScript

variable {c : Char} {cs text after rest : List Char} {p : Pattern}

/-! ## Longest by its class -/

theorem length_le_takeWhile {q : Char → Bool} {front : List Char} (all : ∀ c ∈ front, q c = true)
    (begins : front <+: cs) : front.length ≤ (cs.takeWhile q).length := by
  obtain ⟨rest, rfl⟩ := begins
  rw [List.takeWhile_append_of_pos all, List.length_append]
  exact Nat.le_add_right _ _

/-- Only patterns of the class of its first character can match what begins a text. -/
theorem class_of_begins {front : List Char} (mem : front ∈ p.language)
    (begins : front <+: c :: cs) : p.charClass = .of c := by
  obtain ⟨d, more, rfl, class_⟩ := class_of_mem mem
  obtain ⟨rfl, -⟩ := List.cons_prefix_cons.1 begins
  exact class_.symm

/-- A match is the longest one if it is among the patterns of its class. -/
theorem Longest.of_class (mem : text ∈ p.language) (whole : text ++ after = c :: cs)
    (longest : ∀ p : Pattern, p.charClass = .of c → ∀ more ∈ p.language, more <+: c :: cs →
      more.length ≤ text.length) : Longest text after where
  found := ⟨p, mem⟩
  longest p more mem begins := by
    rw [whole] at begins
    exact longest p (class_of_begins mem begins) more mem begins

/-! ## What is cut off -/

/-- What has been cut off is a longest match, and means what that does. -/
structure Cut.Munched (front : Cut) (p : Pattern) : Prop where
  matches_ : p.Matches front.taken front.rest
  piece : front.piece = p.piece front.taken

theorem exists_numeral_cutNumber (digit : Number.isDigit c = true) (cs : List Char) :
    ∃ n : Number.Numeral, (cutNumber (c :: cs)).taken = n.chars ∧
      (cutNumber (c :: cs)).piece = .token (.number n.value) := by
  have some : (c :: cs).takeWhile Number.isDigit ≠ [] := by simp [digit]
  have digits (l : List Char) : ∀ d ∈ l.takeWhile Number.isDigit, Number.isDigit d = true :=
    List.all_eq_true.1 List.all_takeWhile
  unfold cutNumber
  split
  · next more _ =>
    refine ⟨⟨_, Option.some (more.takeWhile Number.isDigit), some, digits _, ?_⟩, rfl, rfl⟩
    rintro _ ⟨⟩
    exact digits more
  · exact ⟨⟨_, none, some, digits _, by simp⟩, (List.append_nil _).symm, rfl⟩

/-- No numeral at the front is longer than what is cut off. -/
theorem Number.Numeral.length_le (n : Number.Numeral) :
    n.chars <+: cs → n.chars.length ≤ (cutNumber cs).taken.length := by
  obtain ⟨whole, fraction, -, digits, more⟩ := n
  intro begins
  cases fraction with
  | none =>
    have le := length_le_takeWhile digits (by simpa [chars, tail] using begins)
    simp only [chars, tail, List.append_nil]
    unfold cutNumber
    split
    · simp only [List.length_append]
      omega
    · exact le
  | some f =>
    obtain ⟨rest, rfl⟩ := begins
    have point : ∀ c ∈ ('.' :: (f ++ rest)).head?, Number.isDigit c = false := by
      rintro c ⟨⟩
      rfl
    have le := length_le_takeWhile (more f rfl) (List.prefix_append f rest)
    simp only [cutNumber, chars, tail, List.append_assoc, List.cons_append,
      takeWhile_append_of_ends digits point, dropWhile_append_of_ends digits point,
      List.length_append, List.length_cons]
    omega

theorem munched_number (digit : Number.isDigit c = true) (cs : List Char) :
    (cutNumber (c :: cs)).Munched .number := by
  obtain ⟨n, taken, piece⟩ := exists_numeral_cutNumber digit cs
  have mem : (cutNumber (c :: cs)).taken ∈ Pattern.number.language :=
    mem_number.2 ⟨n, taken.symm⟩
  refine ⟨⟨mem, .of_class mem (cutNumber_taken_append_rest _) fun p class_ more hmore begins => ?_,
    by simp⟩, ?_⟩
  · rw [class_of_isDigit digit] at class_
    cases p with
    | number =>
      obtain ⟨m, rfl⟩ := mem_number.1 hmore
      exact m.length_le begins
    | _ => cases class_
  · rw [piece, taken, Pattern.piece, n.ofText?_chars]

theorem word_mem_name (word : p.charClass = .word) (mem : text ∈ p.language) :
    text ∈ Pattern.name.language := by
  cases p with
  | keyword k =>
    obtain rfl := mem_exactly.1 mem
    exact keyword_mem_name k
  | boolean b =>
    obtain rfl := mem_exactly.1 mem
    exact boolean_mem_name b
  | name => exact mem
  | _ => cases word

theorem continuesWord_of_mem_name (mem : text ∈ Pattern.name.language) :
    ∀ d ∈ text, continuesWord d = true := by
  obtain ⟨d, more, begins, word, rfl⟩ := mem_name.1 mem
  exact List.forall_mem_cons.2 ⟨by simp [continuesWord, begins], word⟩

/-- A longest match that is a word means what its pattern says. -/
theorem exists_matches_of_word (mem : text ∈ Pattern.name.language) (longest : Longest text after) :
    ∃ p : Pattern, p.Matches text after ∧ classifyWord (String.ofList text) = p.piece text := by
  have spelled {w : String} (h : String.ofList text = w) : text = w.toList := by
    rw [← h, String.toList_ofList]
  unfold classifyWord
  split
  · next h => exact ⟨.boolean true, ⟨spelled h, longest, by simp⟩, rfl⟩
  next notTrue =>
  split
  · next h => exact ⟨.boolean false, ⟨spelled h, longest, by simp⟩, rfl⟩
  next notFalse =>
  split
  · next k hk =>
    have h : k.spelling = String.ofList text := by simpa using List.find?_some hk
    exact ⟨.keyword k, ⟨spelled h.symm, longest, by simp⟩, rfl⟩
  next none =>
  refine ⟨.name, ⟨mem, longest, fun _ => ⟨?_, ?_⟩⟩, ?_⟩
  · rintro k rfl
    rw [String.ofList_toList, Keyword.ofWord?_spelling] at none
    cases none
  · rintro b rfl
    rw [String.ofList_toList] at notTrue notFalse
    cases b with
    | true => exact notTrue rfl
    | false => exact notFalse rfl
  · cases h : restrictedHint? (String.ofList text) <;> simp only [Pattern.piece, h]

theorem munched_word (begins : beginsWord c = true) (cs : List Char) :
    ∃ p, (cutWord (c :: cs)).Munched p := by
  have first : continuesWord c = true := by simp [continuesWord, begins]
  have mem : (cutWord (c :: cs)).taken ∈ Pattern.name.language := by
    refine mem_name.2 ⟨c, cs.takeWhile continuesWord, begins,
      List.all_eq_true.1 List.all_takeWhile, ?_⟩
    simp [cutWord, first]
  have longest : Longest (cutWord (c :: cs)).taken (cutWord (c :: cs)).rest := by
    refine .of_class mem List.takeWhile_append_dropWhile fun p class_ more hmore begins' => ?_
    rw [class_of_beginsWord begins] at class_
    exact length_le_takeWhile (continuesWord_of_mem_name (word_mem_name class_ hmore)) begins'
  obtain ⟨p, matches_, piece⟩ := exists_matches_of_word mem longest
  exact ⟨p, matches_, piece⟩

/-- Behind the first quote nothing goes on that lacks it. -/
theorem length_le_of_not_mem {body front rest : List Char} (lacks : c ∉ body)
    (lacks' : c ∉ front) (begins : front <+: body ++ c :: rest) : front.length ≤ body.length := by
  have ends : ∀ d ∈ (c :: rest).head?, (d != c) = false := by
    rintro d ⟨⟩
    simp
  have le := length_le_takeWhile (ne_of_not_mem lacks') begins
  rwa [takeWhile_append_of_ends (ne_of_not_mem lacks) ends] at le

theorem munched_closedText (quote : isQuote c = true) {body : List Char} (lacks : c ∉ body)
    (rest : List Char) : (cutText c (body ++ c :: rest)).Munched (.text c quote) := by
  have cut_ : cutText c (body ++ c :: rest) =
      ⟨.token (.text (String.ofList body)), c :: (body ++ [c]), rest⟩ := by
    rw [← cut_of_isQuote quote, List.append_cons]
    exact cut_text quote lacks
  have mem : c :: (body ++ [c]) ∈ (Pattern.text c quote).language :=
    (mem_text quote).2 ⟨body, lacks, rfl⟩
  have whole : c :: (body ++ [c]) ++ rest = c :: (body ++ c :: rest) := by simp
  rw [cut_]
  refine ⟨⟨mem, .of_class mem whole fun p class_ more hmore begins => ?_, by simp⟩,
    by simp [Pattern.piece]⟩
  rw [class_of_isQuote quote] at class_
  cases p with
  | text q hq =>
    obtain ⟨body', lacks', rfl⟩ := (mem_text hq).1 hmore
    obtain ⟨rfl, front⟩ := List.cons_prefix_cons.1 begins
    have := length_le_of_not_mem lacks lacks' ((List.prefix_append body' [q]).trans front)
    simp only [List.length_cons, List.length_append]
    omega
  | openText q hq =>
    obtain ⟨body', lacks', rfl⟩ := (mem_openText hq).1 hmore
    obtain ⟨rfl, front⟩ := List.cons_prefix_cons.1 begins
    have := length_le_of_not_mem lacks lacks' front
    simp only [List.length_cons, List.length_append]
    omega
  | _ => cases class_

theorem munched_openText (quote : isQuote c = true) (lacks : c ∉ cs) :
    (cutText c cs).Munched (.openText c quote) := by
  have cut_ : cutText c cs = ⟨.mistake (.unterminated c), c :: cs, []⟩ := by
    have ends : ∀ d ∈ ([] : List Char).head?, (d != c) = false := by simp
    have front := takeWhile_append_of_ends (ne_of_not_mem lacks) ends
    have back := dropWhile_append_of_ends (ne_of_not_mem lacks) ends
    rw [List.append_nil] at front back
    simp only [cutText, front, back]
  have mem : c :: cs ∈ (Pattern.openText c quote).language :=
    (mem_openText quote).2 ⟨cs, lacks, rfl⟩
  rw [cut_]
  exact ⟨⟨mem, .of_class mem (List.append_nil _) fun p _ more _ begins => begins.length_le,
    by simp⟩, rfl⟩

theorem munched_text (quote : isQuote c = true) (cs : List Char) :
    ∃ p, (cutText c cs).Munched p := by
  by_cases closed : c ∈ cs
  · obtain ⟨body, rest, rfl, lacks⟩ := List.eq_append_cons_of_mem closed
    exact ⟨_, munched_closedText quote lacks rest⟩
  · exact ⟨_, munched_openText quote closed⟩

/-- Neither comments nor signs go beyond a line break. -/
theorem munched_comment (cs : List Char) : (cutComment ('/' :: '/' :: cs)).Munched .comment := by
  have lacks : '\n' ∉ cs.takeWhile (· != '\n') := fun mem => by
    simpa using List.all_eq_true.1 List.all_takeWhile '\n' mem
  have mem : (cutComment ('/' :: '/' :: cs)).taken ∈ Pattern.comment.language :=
    mem_comment.2 ⟨_, lacks, by simp [cutComment]⟩
  refine ⟨⟨mem, .of_class mem List.takeWhile_append_dropWhile fun p class_ more hmore begins => ?_,
    by simp⟩, rfl⟩
  refine length_le_takeWhile (ne_of_not_mem ?_) begins
  cases p with
  | comment =>
    obtain ⟨text, lacks, rfl⟩ := mem_comment.1 hmore
    simpa using lacks
  | sign s =>
    obtain rfl := mem_exactly.1 hmore
    exact s.break_not_mem_chars
  | _ => cases class_

/-- Nothing at all matches what begins there. -/
def NoMatch (cs : List Char) : Prop :=
  ∀ (p : Pattern), ∀ front ∈ p.language, ¬ front <+: cs

/-- The longest sign is cut off, or no pattern matches. -/
theorem munched_sign (other : CharClass.of c = .other)
    (noComment : (c == '/' && cs.head? == some '/') = false) :
    (∃ p, (cutSign c cs).Munched p) ∨
      cutSign c cs = ⟨.mistake (.unexpected c), [c], cs⟩ ∧ NoMatch (c :: cs) := by
  -- of the patterns of this class there are only the signs
  have only (p : Pattern) (class_ : p.charClass = .of c) (more : List Char)
      (mem : more ∈ p.language) (begins : more <+: c :: cs) : ∃ s : Sign, s.chars = more := by
    rw [other] at class_
    cases p with
    | comment =>
      obtain ⟨text, -, rfl⟩ := mem_comment.1 mem
      obtain ⟨rfl, front⟩ := List.cons_prefix_cons.1 begins
      obtain ⟨rest, rfl⟩ := front
      simp at noComment
    | sign s => exact ⟨s, mem.symm⟩
    | _ => cases class_
  have whole := cutSign_taken_append_rest c cs
  unfold cutSign at whole ⊢
  cases found : Sign.all.find? fun s => s.chars.isPrefixOf (c :: cs) with
  | some s =>
    rw [found] at whole
    obtain ⟨begins, longest⟩ := longest_of_find? found
    have mem : s.chars ∈ (Pattern.sign s).language := rfl
    refine .inl ⟨.sign s, ⟨mem, .of_class mem whole fun p class_ more hmore begins' => ?_, by simp⟩,
      rfl⟩
    obtain ⟨s', rfl⟩ := only p class_ more hmore begins'
    exact longest s' begins'
  | none =>
    refine .inr ⟨rfl, fun p more hmore begins => ?_⟩
    obtain ⟨s, rfl⟩ := only p (class_of_begins hmore begins) more hmore begins
    have fails := List.find?_eq_none.1 found s s.mem_all
    exact fails (List.isPrefixOf_iff_prefix.2 begins)

/-- Whatever begins with something else than a filler is the longest match, or nothing matches. -/
theorem munched_cut (filler : isFiller c = false) (cs : List Char) :
    (∃ p, (cut c cs).Munched p) ∨
      cut c cs = ⟨.mistake (.unexpected c), [c], cs⟩ ∧ NoMatch (c :: cs) := by
  unfold cut
  split
  · next h => rw [filler] at h; cases h
  split
  · next digit => exact .inl ⟨.number, munched_number digit cs⟩
  split
  · next begins => exact .inl (munched_word begins cs)
  split
  · next quote => exact .inl (munched_text quote cs)
  split
  · next slash =>
    obtain ⟨rfl, head⟩ : c = '/' ∧ cs.head? = some '/' := by simpa using slash
    obtain ⟨rest, rfl⟩ := List.head?_eq_some_iff.1 head
    exact .inl ⟨.comment, munched_comment rest⟩
  next digit begins quote noComment =>
  have other : CharClass.of c = .other := by
    simp [CharClass.of, filler, digit, begins, quote]
  exact munched_sign other (by simpa using noComment)

/-- Fillers go together as far as there are any. -/
theorem matches_blanks (filler : isFiller c = true) (cs : List Char) :
    Pattern.blanks.Matches ((c :: cs).takeWhile isFiller) ((c :: cs).dropWhile isFiller) := by
  have mem : (c :: cs).takeWhile isFiller ∈ Pattern.blanks.language :=
    mem_blanks.2 ⟨by simp [filler], List.all_eq_true.1 List.all_takeWhile⟩
  refine ⟨mem, .of_class mem List.takeWhile_append_dropWhile fun p class_ more hmore begins => ?_,
    by simp⟩
  rw [CharClass.of, if_pos filler] at class_
  cases p with
  | blanks => exact length_le_takeWhile (mem_blanks.1 hmore).2 begins
  | _ => cases class_

/-! ## Whole texts -/

/-- The items of a text that begins at an offset, if at each place the longest match is taken and
means what its pattern says. Where nothing matches, one character is passed over as a mistake. -/
inductive Munches : Nat → List Char → List Item → Prop where
  | done {offset : Nat} : Munches offset [] []
  | piece {offset : Nat} {p : Pattern} {text after : List Char} {items : List Item} :
    p.Matches text after → Munches (offset + byteLength text) after items →
    Munches offset (text ++ after)
      ((p.piece text).items ⟨offset, offset + byteLength text⟩ ++ items)
  | unexpected {offset : Nat} {c : Char} {cs : List Char} {items : List Item} :
    NoMatch (c :: cs) → Munches (offset + byteLength [c]) cs items →
    Munches offset (c :: cs)
      (.mistake ⟨.unexpected c, ⟨offset, offset + byteLength [c]⟩⟩ :: items)

theorem munches_scanFrom (offset : Nat) (cs : List Char) :
    Munches offset cs (scanFrom offset cs) := by
  induction hn : cs.length using Nat.strongRecOn generalizing offset cs with
  | ind _ ih =>
    subst hn
    cases cs with
    | nil =>
      rw [scanFrom]
      exact .done
    | cons c cs =>
      cases filler : isFiller c with
      | true =>
        have all : ∀ d ∈ (c :: cs).takeWhile isFiller, isFiller d = true :=
          List.all_eq_true.1 List.all_takeWhile
        have shorter : ((c :: cs).dropWhile isFiller).length < (c :: cs).length := by
          have le := (List.dropWhile_suffix isFiller (l := cs)).length_le
          rw [List.dropWhile_cons, if_pos filler, List.length_cons]
          omega
        have rest := ih _ shorter (offset + byteLength ((c :: cs).takeWhile isFiller)) _ rfl
        have munches := Munches.piece (matches_blanks filler cs) rest
        rw [← scanFrom_fillers offset all, List.takeWhile_append_dropWhile] at munches
        exact munches
      | false =>
        have rest := ih _ (cut_rest_length_lt c cs) (offset + byteLength (cut c cs).taken) _ rfl
        rw [scanFrom_cons]
        rcases munched_cut filler cs with ⟨p, matches_, piece⟩ | ⟨alone, none⟩
        · have munches := Munches.piece matches_ rest
          rwa [cut_taken_append_rest, ← piece] at munches
        · rw [alone] at rest ⊢
          exact .unexpected none rest

namespace Munches

variable {offset : Nat} {items : List Item}

theorem done_inv (h : Munches offset [] items) : items = [] := by
  generalize hcs : ([] : List Char) = cs at h
  cases h with
  | done => rfl
  | piece made =>
    obtain ⟨c, more, rfl, -⟩ := class_of_mem made.mem
    cases hcs
  | unexpected => cases hcs

theorem piece_inv (made : p.Matches text after) (h : Munches offset (text ++ after) items) :
    ∃ more, Munches (offset + byteLength text) after more ∧
      items = (p.piece text).items ⟨offset, offset + byteLength text⟩ ++ more := by
  generalize hcs : text ++ after = cs at h
  cases h with
  | done =>
    obtain ⟨c, more, rfl, -⟩ := class_of_mem made.mem
    cases hcs
  | piece made' rest =>
    obtain ⟨rfl, rfl⟩ := made.longest.unique made'.longest hcs
    obtain rfl := made.unique made'
    exact ⟨_, rest, rfl⟩
  | unexpected none => exact absurd ⟨after, hcs⟩ (none p text made.mem)

theorem unexpected_inv (none : NoMatch (c :: cs)) (h : Munches offset (c :: cs) items) :
    ∃ more, Munches (offset + byteLength [c]) cs more ∧
      items = .mistake ⟨.unexpected c, ⟨offset, offset + byteLength [c]⟩⟩ :: more := by
  generalize hcs : c :: cs = whole at h
  cases h with
  | done => cases hcs
  | piece made => exact absurd ⟨_, hcs.symm⟩ (none _ _ made.mem)
  | unexpected _ rest =>
    cases hcs
    exact ⟨_, rest, rfl⟩

/-- There is one way to scan a text by longest matches. -/
theorem unique {items' : List Item} (h : Munches offset cs items)
    (h' : Munches offset cs items') : items = items' := by
  induction h generalizing items' with
  | done => exact h'.done_inv.symm
  | piece made _ ih =>
    obtain ⟨more, rest, rfl⟩ := h'.piece_inv made
    rw [ih rest]
  | unexpected none _ ih =>
    obtain ⟨more, rest, rfl⟩ := h'.unexpected_inv none
    rw [ih rest]

end Munches

theorem munches_iff {offset : Nat} {items : List Item} :
    Munches offset cs items ↔ items = scanFrom offset cs := by
  constructor
  · exact fun munches => munches.unique (munches_scanFrom offset cs)
  · rintro rfl
    exact munches_scanFrom offset cs

/-! ## Items -/

/-- The item is what the longest match means, or the character with which nothing begins. -/
def Item.MadeFrom (item : Item) (text after : List Char) : Prop :=
  (∃ p : Pattern, p.Matches text after ∧ (p.piece text).items item.span = [item]) ∨
    ∃ c, text = [c] ∧ NoMatch (c :: after) ∧ item = .mistake ⟨.unexpected c, item.span⟩

theorem Munches.madeFrom {source : String} {before : List Char} {items : List Item} {item : Item}
    (hsource : source.toList = before ++ cs) (h : Munches (byteLength before) cs items)
    (mem : item ∈ items) :
    ∃ text after, Reads source item.span text after ∧ item.MadeFrom text after := by
  generalize hoffset : byteLength before = offset at h
  induction h generalizing before with
  | done => cases mem
  | @piece _ p text after items made _ ih =>
    subst hoffset
    rcases List.mem_append.1 mem with here | later
    · have span := Piece.span_of_mem_items here
      refine ⟨text, after, ⟨before, hsource, by rw [span], by rw [span, byteLength_append]⟩,
        .inl ⟨p, made, ?_⟩⟩
      rw [span]
      cases hp : p.piece text <;> simp_all [Piece.items]
    · exact @ih (before ++ text) (by simp [hsource]) later (by simp)
  | @unexpected _ c cs items none _ ih =>
    subst hoffset
    rcases List.mem_cons.1 mem with rfl | later
    · exact ⟨[c], cs, ⟨before, hsource, rfl, (byteLength_append ..).symm⟩,
        .inr ⟨c, rfl, none, rfl⟩⟩
    · exact @ih (before ++ [c]) (by simp [hsource]) later (by simp)

theorem append_inj_of_byteLength {a a' b b' : List Char} (same : a ++ b = a' ++ b')
    (length : byteLength a = byteLength a') : a = a' ∧ b = b' := by
  induction a generalizing a' with
  | nil =>
    cases a' with
    | nil => exact ⟨rfl, same⟩
    | cons c a' =>
      have := byteLength_pos (List.cons_ne_nil c a')
      rw [byteLength_nil] at length
      omega
  | cons c a ih =>
    cases a' with
    | nil =>
      have := byteLength_pos (List.cons_ne_nil c a)
      rw [byteLength_nil] at length
      omega
    | cons c' a' =>
      obtain ⟨rfl, rest⟩ := List.cons.inj same
      obtain ⟨rfl, rfl⟩ := ih rest (by simpa using length)
      exact ⟨rfl, rfl⟩

/-- What stands in a span is determined by it. -/
theorem Reads.unique {source : String} {span : Span} {text' after' : List Char}
    (h : Reads source span text after) (h' : Reads source span text' after') :
    text = text' ∧ after = after' := by
  obtain ⟨before, whole, start, stop⟩ := h
  obtain ⟨before', whole', start', stop'⟩ := h'
  obtain ⟨rfl, same⟩ := append_inj_of_byteLength (whole.symm.trans whole') (start.symm.trans start')
  rw [byteLength_append] at stop stop'
  exact append_inj_of_byteLength same (by omega)

/-- The item that has been made from the text in its range. -/
theorem madeFrom_of_mem_scanFrom {source : String} {item : Item}
    (mem : item ∈ scanFrom 0 source.toList) (reads : Reads source item.span text after) :
    item.MadeFrom text after := by
  have munches : Munches (byteLength []) source.toList _ := munches_scanFrom 0 _
  obtain ⟨text', after', reads', made⟩ := munches.madeFrom (List.nil_append _).symm mem
  obtain ⟨rfl, rfl⟩ := reads.unique reads'
  exact made

/-! ### Tokens -/

/-- How literals are spelled: a text is what stands between its quotes, and a number what the
numeral reads as. -/
structure Token.Kind.Spelled (k : Token.Kind) (text : List Char) : Prop where
  inQuotes : ∀ s, k = .text s →
    ∃ q, isQuote q = true ∧ text = q :: (s.toList ++ [q]) ∧ q ∉ s.toList
  number : ∀ x, k = .number x → text.count '.' ≤ 1 ∧ Number.ofText? text = some x

/-- A numeral has at most one point, and it is a number. -/
theorem number_of_mem (mem : text ∈ Pattern.number.language) :
    text.count '.' ≤ 1 ∧ ∃ x, Number.ofText? text = some x := by
  obtain ⟨n, rfl⟩ := mem_number.1 mem
  refine ⟨?_, _, n.ofText?_chars⟩
  have none {digits : List Char} (all : ∀ c ∈ digits, Number.isDigit c = true) :
      digits.count '.' = 0 :=
    List.count_eq_zero.2 fun point => absurd (all '.' point) (by decide)
  unfold Number.Numeral.chars Number.Numeral.tail
  cases hf : n.fraction with
  | none => simp [none n.whole_digits]
  | some f => simp [none n.whole_digits, none (n.fraction_digits f hf)]

theorem spelled_of_matches {k : Token.Kind} (made : p.Matches text after)
    (piece : p.piece text = .token k) : k.Spelled text := by
  have mem := made.mem
  cases p with
  | blanks | comment | openText => cases piece
  | keyword | boolean | sign =>
    cases piece
    exact ⟨by simp, by simp⟩
  | name =>
    simp only [Pattern.piece] at piece
    split at piece
    · cases piece
    · cases piece
      exact ⟨by simp, by simp⟩
  | number =>
    obtain ⟨points, x, value⟩ := number_of_mem mem
    simp only [Pattern.piece, value] at piece
    cases piece
    exact ⟨by simp, fun x' hx' => by cases hx'; exact ⟨points, value⟩⟩
  | text q hq =>
    obtain ⟨body, lacks, rfl⟩ := (mem_text hq).1 mem
    cases piece
    refine ⟨fun s hs => ⟨q, hq, ?_⟩, by simp⟩
    cases hs
    simpa using lacks

/-! ### Words -/

/-- The item that a word makes: a keyword or a truth value if it is one, a mistake with the hint
from the table if it is refused, and else a name. -/
structure Item.OfWord (word : String) (item : Item) : Prop where
  keyword : ∀ k : Keyword, k.spelling = word → item = .token ⟨.keyword k, item.span⟩
  boolean : ∀ b, Token.Kind.booleanText b = word → item = .token ⟨.boolean b, item.span⟩
  refused : ∀ hint, (word, hint) ∈ restrictedWords →
    ∃ e : LexicalError, item = .mistake e ∧ e.cause = .restricted word hint ∧
      e.diagnostic.code.label = "E0003" ∧ e.diagnostic.help = [hint]
  name : (∀ k : Keyword, k.spelling ≠ word) → (∀ b, Token.Kind.booleanText b ≠ word) →
    (∀ hint, (word, hint) ∉ restrictedWords) → item = .token ⟨.name word, item.span⟩

/-- No refused word has a meaning of its own. -/
theorem not_refused {word hint : String} (mem : (word, hint) ∈ restrictedWords) :
    (∀ k : Keyword, k.spelling ≠ word) ∧ ∀ b, Token.Kind.booleanText b ≠ word := by
  have all : ∀ e ∈ restrictedWords, (∀ k ∈ Keyword.all, k.spelling ≠ e.1) ∧
      ∀ b, Token.Kind.booleanText b ≠ e.1 := by
    decide +kernel
  obtain ⟨keyword, boolean⟩ := all _ mem
  exact ⟨fun k => keyword k k.mem_all, boolean⟩

/-- That does not depend on the span. -/
theorem Item.OfWord.clamp {word : String} {item : Item} (h : item.OfWord word) :
    item.clamp.OfWord word where
  keyword k same := by rw [h.keyword k same]; rfl
  boolean b same := by rw [h.boolean b same]; rfl
  refused hint mem := by
    obtain ⟨e, rfl, refused⟩ := h.refused hint mem
    exact ⟨_, rfl, refused⟩
  name keyword boolean free := by rw [h.name keyword boolean free]; rfl

theorem ofWord_keyword (k : Keyword) (span : Span) :
    Item.OfWord k.spelling (.token ⟨.keyword k, span⟩) where
  keyword k' same := by rw [Keyword.spelling_injective same]; rfl
  boolean b same := absurd (congrArg String.toList same).symm (keyword_ne_boolean k b)
  refused hint mem := absurd rfl ((not_refused mem).1 k)
  name none := absurd rfl (none k)

theorem ofWord_boolean (b : Bool) (span : Span) :
    Item.OfWord (Token.Kind.booleanText b) (.token ⟨.boolean b, span⟩) where
  keyword k same := absurd (congrArg String.toList same) (keyword_ne_boolean k b)
  boolean b' same := by rw [booleanText_injective b' b (congrArg String.toList same)]; rfl
  refused hint mem := absurd rfl ((not_refused mem).2 b)
  name _ none := absurd rfl (none b)

theorem ofWord_refused {word hint : String} (mem : (word, hint) ∈ restrictedWords) (span : Span) :
    Item.OfWord word (.mistake ⟨.restricted word hint, span⟩) where
  keyword k same := absurd same ((not_refused mem).1 k)
  boolean b same := absurd same ((not_refused mem).2 b)
  refused hint' mem' := by
    have same := restrictedHint?_eq_some_iff.2 mem
    rw [restrictedHint?_eq_some_iff.2 mem'] at same
    cases same
    exact ⟨_, rfl, rfl, rfl, rfl⟩
  name _ _ none := absurd mem (none hint)

theorem ofWord_name {word : String} (keyword : ∀ k : Keyword, k.spelling ≠ word)
    (boolean : ∀ b, Token.Kind.booleanText b ≠ word) (free : restrictedHint? word = none)
    (span : Span) : Item.OfWord word (.token ⟨.name word, span⟩) where
  keyword k same := absurd same (keyword k)
  boolean b same := absurd same (boolean b)
  refused hint mem := by
    rw [restrictedHint?_eq_some_iff.2 mem] at free
    cases free
  name _ _ _ := rfl

/-- What a word means is decided by the whole of it. -/
theorem ofWord_of_matches {item : Item} (made : p.Matches text after) (word : p.charClass = .word)
    (piece : (p.piece text).items item.span = [item]) : item.OfWord (String.ofList text) := by
  have mem := made.mem
  generalize item.span = span at piece
  cases p with
  | keyword k =>
    obtain rfl := mem_exactly.1 mem
    rw [String.ofList_toList]
    cases piece
    exact ofWord_keyword k span
  | boolean b =>
    obtain rfl := mem_exactly.1 mem
    rw [String.ofList_toList]
    cases piece
    exact ofWord_boolean b span
  | name =>
    obtain ⟨keyword, boolean⟩ := made.first rfl
    have spelled {w : String} (h : w = String.ofList text) : text = w.toList := by
      rw [h, String.toList_ofList]
    cases found : restrictedHint? (String.ofList text) with
    | some hint =>
      simp only [Pattern.piece, found] at piece
      cases piece
      exact ofWord_refused (restrictedHint?_eq_some_iff.1 found) span
    | none =>
      simp only [Pattern.piece, found] at piece
      cases piece
      exact ofWord_name (fun k same => keyword k (spelled same))
        (fun b same => boolean b (spelled same)) found span
  | _ => cases word

/-- Behind a longest match that is a word the word does not go on. -/
theorem word_ends (longest : Longest text after) (mem : text ∈ Pattern.name.language) :
    ∀ d ∈ after.head?, continuesWord d = false := by
  intro d hd
  obtain ⟨more, rfl⟩ := List.head?_eq_some_iff.1 hd
  apply Bool.eq_false_iff.2
  intro continues
  obtain ⟨c, word, begins, all, rfl⟩ := mem_name.1 mem
  have longer : c :: (word ++ [d]) ∈ Pattern.name.language :=
    mem_name.2 ⟨c, _, begins, List.forall_mem_append.2 ⟨all, by simpa using continues⟩, rfl⟩
  have le := longest.longest .name _ longer ⟨more, by simp⟩
  simp only [List.length_cons, List.length_append, List.length_nil] at le
  omega

theorem Item.MadeFrom.token {t : Token} (made : Item.MadeFrom (.token t) text after) :
    Longest text after ∧ t.kind.Spelled text := by
  rcases made with ⟨p, matches_, piece⟩ | ⟨c, -, -, mistake⟩
  · refine ⟨matches_.longest, spelled_of_matches matches_ ?_⟩
    cases h : p.piece text with
    | filler | mistake => simp [h, Piece.items] at piece
    | token kind =>
      simp only [h, Piece.items, List.cons.injEq, Item.token.injEq, and_true] at piece
      rw [← piece]
  · cases mistake

theorem Item.MadeFrom.word {item : Item} (made : item.MadeFrom text after) (first : c ∈ text.head?)
    (begins : beginsWord c = true) : Longest text after ∧ text ∈ Pattern.name.language ∧
      (∀ d ∈ after.head?, continuesWord d = false) ∧ item.OfWord (String.ofList text) := by
  obtain ⟨more, rfl⟩ := List.head?_eq_some_iff.1 first
  rcases made with ⟨p, matches_, piece⟩ | ⟨d, single, none, -⟩
  · have word : p.charClass = .word := by
      rw [class_of_begins matches_.mem (List.prefix_refl _), class_of_beginsWord begins]
    have mem := word_mem_name word matches_.mem
    exact ⟨matches_.longest, mem, word_ends matches_.longest mem,
      ofWord_of_matches matches_ word piece⟩
  · cases single
    exact absurd ⟨after, rfl⟩ (none .name [c] (mem_name.2 ⟨c, [], begins, by simp, rfl⟩))

/-- Scanning a source is taking the longest match at each place, of all patterns; there is just
one way to do so, and then the range of each item is put into a span. So each token is the longest
front of the text from there on that any pattern matches, a text is what stands between its quotes,
which are not in it, and a number is what its numeral reads as, with at most one point. A word is
taken as a whole and makes one item: a keyword or a truth value if it is one, a mistake with its
hint if the table of refused words has it, and else a name. All that the pattern of numbers matches
is a number, and the search in the table finds what is in it and nothing else. -/
theorem every_item_is_the_longest_match (source : String) :
    scan source = (scanFrom 0 source.toList).map Item.clamp ∧
    (∀ items, Munches 0 source.toList items ↔ items = scanFrom 0 source.toList) ∧
    let found := scanFrom 0 source.toList
    (∀ item ∈ found, ∃ text after, Reads source item.span text after) ∧
    (∀ t, .token t ∈ found → ∀ text after, Reads source t.span text after →
      Longest text after ∧ t.kind.Spelled text) ∧
    (∀ item ∈ found, ∀ text after, Reads source item.span text after →
      ∀ c ∈ text.head?, beginsWord c = true →
        Longest text after ∧ text ∈ Pattern.name.language ∧
        (∀ d ∈ after.head?, continuesWord d = false) ∧
        item.clamp.OfWord (String.ofList text)) ∧
    (∀ text ∈ Pattern.number.language, text.count '.' ≤ 1 ∧ ∃ x, Number.ofText? text = some x) ∧
    ∀ word hint, restrictedHint? word = some hint ↔ (word, hint) ∈ restrictedWords := by
  refine ⟨rfl, fun items => munches_iff, fun item mem => ?_, fun t mem text after reads => ?_,
    fun item mem text after reads c first begins => ?_, fun text mem => number_of_mem mem,
    fun word hint => restrictedHint?_eq_some_iff⟩
  · have munches : Munches (byteLength []) source.toList _ := munches_scanFrom 0 _
    obtain ⟨text, after, reads, -⟩ := munches.madeFrom (List.nil_append _).symm mem
    exact ⟨text, after, reads⟩
  · exact (madeFrom_of_mem_scanFrom mem reads).token
  · obtain ⟨longest, name, ends, ofWord⟩ :=
      (madeFrom_of_mem_scanFrom mem reads).word first begins
    exact ⟨longest, name, ends, ofWord.clamp⟩

/-- A name that begins with a keyword, a refused word, and a name that begins with that. -/
theorem words_that_begin_with_other_words :
    let source := "letter = 'for' + 1.5 for forte"
    let hint := "use `loop (i, start, end) \x7b ... \x7d`"
    Munches 0 source.toList (scan source) ∧
      Longest "'for'".toList " + 1.5 for forte".toList ∧
      Item.OfWord "letter" (.token ⟨.name "letter", ⟨0, 6⟩⟩) ∧
      Item.OfWord "for" (.mistake ⟨.restricted "for" hint, ⟨21, 24⟩⟩) ∧
      (∀ c ∈ " forte".toList.head?, continuesWord c = false) ∧
      ∃ x, Number.ofText? "1.5".toList = some x := by
  intro source hint
  obtain ⟨same, munches, -, tokens, words, numbers, -⟩ := every_item_is_the_longest_match source
  let text : Token := ⟨.text "for", ⟨9, 14⟩⟩
  let name : Item := .token ⟨.name "letter", ⟨0, 6⟩⟩
  let refused : Item := .mistake ⟨.restricted "for" hint, ⟨21, 24⟩⟩
  have readsText : Reads source text.span "'for'".toList " + 1.5 for forte".toList :=
    ⟨"letter = ".toList, by decide +kernel, by decide +kernel, by decide +kernel⟩
  have readsName : Reads source name.span "letter".toList " = 'for' + 1.5 for forte".toList :=
    ⟨[], by decide +kernel, by decide +kernel, by decide +kernel⟩
  have readsRefused : Reads source refused.span "for".toList " forte".toList :=
    ⟨"letter = 'for' + 1.5 ".toList, by decide +kernel, by decide +kernel, by decide +kernel⟩
  obtain ⟨-, -, ends, ofRefused⟩ :=
    words refused (by decide +kernel) _ _ readsRefused 'f' rfl (by decide)
  have numeral : "1.5".toList ∈ Pattern.number.language :=
    mem_number.2 ⟨⟨['1'], some ['5'], by simp, List.all_eq_true.1 rfl, by simp [Number.isDigit]⟩,
      rfl⟩
  exact ⟨(munches _).2 (by decide +kernel), (tokens text (by decide +kernel) _ _ readsText).1,
    (words name (by decide +kernel) _ _ readsName 'l' rfl (by decide)).2.2.2, ofRefused, ends,
    (numbers _ numeral).2⟩

end BraceScript
