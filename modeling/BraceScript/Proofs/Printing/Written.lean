-- What the printer writes is scanned back: each token is cut off whole, since a
-- blank or the end of the text is behind it.
import BraceScript.Proofs.Printing.Numerals
import BraceScript.Proofs.Printing.Printer

namespace BraceScript

/-! ## Tokens that can be written -/

/-- The word is neither a truth value, nor a keyword, nor refused. -/
def isIdentifier (s : String) : Bool :=
  match s.toList with
  | [] => false
  | c :: cs => beginsWord c && cs.all continuesWord && s != "true" && s != "false" &&
      (Keyword.ofWord? s).isNone && (restrictedHint? s).isNone

namespace Token.Kind

/-- A name is an identifier, a text lacks one of the quotes, and a number has no sign. -/
def isWritable : Token.Kind → Bool
  | .number x => Number.isUnsigned x
  | .text s => !(s.toList.contains '"' && s.toList.contains '\x27' && s.toList.contains '\x60')
  | .name s => isIdentifier s
  | _ => true

/-- The text of a number reads as the number. -/
def ReadsBack : Token.Kind → Prop
  | .number x => Number.ofText? (numberLayout.write x).toList = some x
  | _ => True

instance (k : Token.Kind) : Decidable k.ReadsBack := by
  unfold ReadsBack
  split <;> infer_instance

end Token.Kind

/-! ## One token -/

/-- Nothing but a blank stands in front of a text, if it is not empty. -/
def EndsToken (b : List Char) : Prop := ∀ c ∈ b.head?, c = ' '

theorem EndsToken.imp {b : List Char} {p : Char → Prop} (h : EndsToken b) (blank : p ' ') :
    ∀ c ∈ b.head?, p c := by
  intro c hc
  rw [h c hc]
  exact blank

variable {b : List Char} {c : Char} {cs : List Char}

theorem not_isFiller_of_continuesWord (h : continuesWord c = true) : isFiller c = false := by
  apply Bool.eq_false_iff.2
  intro filler
  simp only [isFiller, Bool.or_eq_true, beq_iff_eq] at filler
  rcases filler with (((rfl | rfl) | rfl) | rfl) | rfl <;> revert h <;> decide

theorem not_isDigit_of_beginsWord (h : beginsWord c = true) : Number.isDigit c = false := by
  apply Bool.eq_false_iff.2
  intro digit
  simp only [beginsWord, Number.isDigit, Bool.or_eq_true, Bool.and_eq_true, decide_eq_true_eq,
    beq_iff_eq, Char.le_def, UInt32.le_iff_toNat_le] at h digit
  rcases h with (h | h) | rfl
  · simp at h digit
    omega
  · simp at h digit
    omega
  · simp at digit

theorem cut_number {n : Number.Numeral} (h : n.chars = c :: cs) (ends : EndsToken b) :
    cut c (cs ++ b) = ⟨.token (.number n.value), n.chars, b⟩ := by
  obtain ⟨d, ds, hds, digit⟩ := n.exists_cons
  obtain ⟨rfl, rfl⟩ := List.cons.inj (h.symm.trans hds)
  have filler := not_isFiller_of_continuesWord (c := c) (by simp [continuesWord, digit])
  rw [cut, if_neg (by simp [filler]), if_pos digit, ← List.cons_append, ← h]
  exact n.cutNumber_append (ends.imp (by decide))

/-- A word is cut off whole. -/
theorem cut_word (begins : beginsWord c = true) (word : cs.all continuesWord = true)
    (ends : EndsToken b) :
    cut c (cs ++ b) = ⟨classifyWord (String.ofList (c :: cs)), c :: cs, b⟩ := by
  have all : ∀ d ∈ c :: cs, continuesWord d = true := by
    simpa [continuesWord, begins] using word
  have filler := not_isFiller_of_continuesWord (all c (by simp))
  have digit := not_isDigit_of_beginsWord begins
  have stops : ∀ d ∈ b.head?, continuesWord d = false := ends.imp (by decide)
  rw [cut, if_neg (by simp [filler]), if_neg (by simp [digit]), if_pos begins, ← List.cons_append,
    cutWord, takeWhile_append_of_ends all stops, dropWhile_append_of_ends all stops]

theorem cut_text {quote : Char} {s : List Char} (hquote : isQuote quote = true)
    (lacks : quote ∉ s) :
    cut quote (s ++ [quote] ++ b) =
      ⟨.token (.text (String.ofList s)), quote :: (s ++ [quote]), b⟩ := by
  have all : ∀ d ∈ s, (d != quote) = true := fun d hd => by
    simp only [bne_iff_ne]
    rintro rfl
    exact lacks hd
  have stops : ∀ d ∈ ([quote] ++ b).head?, (d != quote) = false := by
    rintro d ⟨⟩
    simp
  rw [cut_of_isQuote hquote, cutText, List.append_assoc, takeWhile_append_of_ends all stops,
    dropWhile_append_of_ends all stops]
  rfl

theorem cut_sign (s : Sign) (ends : EndsToken b) : ∃ c cs, s.chars = c :: cs ∧
    cut c (cs ++ b) = ⟨.token (.sign s), s.chars, b⟩ := by
  rcases b with _ | ⟨d, b⟩
  · cases s <;> exact ⟨_, _, rfl, rfl⟩
  · obtain rfl := ends d rfl
    cases s <;> exact ⟨_, _, rfl, rfl⟩

/-- A word that is a token. -/
theorem cut_token {w : String} {k : Token.Kind} (word : classifyWord w = .token k)
    (hw : w.toList = c :: cs) (begins : beginsWord c = true) (more : cs.all continuesWord = true)
    (ends : EndsToken b) : cut c (cs ++ b) = ⟨.token k, w.toList, b⟩ := by
  rw [cut_word begins more ends, ← hw, String.ofList_toList, word]

theorem isWord_keyword (k : Keyword) : ∃ c cs, k.spelling.toList = c :: cs ∧
    beginsWord c = true ∧ cs.all continuesWord = true ∧
    classifyWord k.spelling = .token (.keyword k) := by
  cases k with
  | math function => cases function <;> exact ⟨_, _, rfl, rfl, rfl, rfl⟩
  | text function => cases function <;> exact ⟨_, _, rfl, rfl, rfl, rfl⟩
  | _ => exact ⟨_, _, rfl, rfl, rfl, rfl⟩

theorem isWord_of_isIdentifier {s : String} (h : isIdentifier s = true) : ∃ c cs,
    s.toList = c :: cs ∧ beginsWord c = true ∧ cs.all continuesWord = true ∧
    classifyWord s = .token (.name s) := by
  unfold isIdentifier at h
  split at h
  · cases h
  · next c cs hs =>
    simp only [Bool.and_eq_true, bne_iff_ne, Option.isNone_iff_eq_none] at h
    obtain ⟨⟨⟨⟨⟨begins, more⟩, notTrue⟩, notFalse⟩, notKeyword⟩, notRestricted⟩ := h
    exact ⟨c, cs, hs, begins, more, by
      simp [classifyWord, notTrue, notFalse, notKeyword, notRestricted]⟩

theorem quoteFor_not_mem {s : String} (h : (Token.Kind.text s).isWritable = true) :
    quoteFor s ∉ s.toList := by
  simp only [Token.Kind.isWritable, Bool.not_eq_true', Bool.and_eq_false_iff] at h
  unfold quoteFor
  split
  · next double =>
    split
    · next single =>
      rcases h with (h | h) | h
      · exact absurd (double.symm.trans h) (by decide)
      · exact absurd (single.symm.trans h) (by decide)
      · simpa using h
    · next single => simpa using single
  · next double => simpa using double

theorem isQuote_quoteFor (s : String) : isQuote (quoteFor s) = true := by
  unfold quoteFor
  split
  · split <;> rfl
  · rfl

/-! ## Tokens in a row -/

/-- A token that can be written is cut off whole, and is the one that was written. -/
theorem cut_written {k : Token.Kind} (writable : k.isWritable = true) (back : k.ReadsBack)
    (ends : EndsToken b) :
    ∃ c cs, k.written = c :: cs ∧ cut c (cs ++ b) = ⟨.token k, k.written, b⟩ := by
  cases k with
  | number x =>
    obtain ⟨n, hn⟩ := Number.exists_numeral writable
    obtain ⟨c, cs, hcs, -⟩ := n.exists_cons
    obtain rfl : n.value = x := by
      have read := n.ofText?_chars
      rw [← hn, back] at read
      exact (Option.some.inj read).symm
    refine ⟨c, cs, hn.trans hcs, ?_⟩
    rw [cut_number hcs ends, Token.Kind.written, hn]
  | text s =>
    refine ⟨_, _, rfl, ?_⟩
    rw [cut_text (isQuote_quoteFor s) (quoteFor_not_mem writable), String.ofList_toList]
    rfl
  | boolean b =>
    cases b
    · exact ⟨_, _, rfl, cut_token (w := "false") rfl rfl rfl rfl ends⟩
    · exact ⟨_, _, rfl, cut_token (w := "true") rfl rfl rfl rfl ends⟩
  | name s =>
    obtain ⟨c, cs, hs, begins, more, word⟩ := isWord_of_isIdentifier writable
    exact ⟨c, cs, hs, cut_token word hs begins more ends⟩
  | keyword k =>
    obtain ⟨c, cs, hs, begins, more, word⟩ := isWord_keyword k
    exact ⟨c, cs, hs, cut_token word hs begins more ends⟩
  | sign s => exact cut_sign s ends

theorem scanFrom_written {k : Token.Kind} (offset : Nat) (writable : k.isWritable = true)
    (back : k.ReadsBack) (ends : EndsToken b) :
    let stop := offset + byteLength k.written
    scanFrom offset (k.written ++ b) = .token ⟨k, ⟨offset, stop⟩⟩ :: scanFrom stop b := by
  obtain ⟨c, cs, hk, hcut⟩ := cut_written writable back ends
  rw [hk, List.cons_append, scanFrom_cons, hcut, ← hk]
  rfl

/-- Tokens with blanks between them are scanned one by one. -/
theorem scanFrom_intercalate {ks : List Token.Kind} (offset : Nat)
    (writable : ∀ k ∈ ks, k.isWritable = true) (back : ∀ k ∈ ks, k.ReadsBack) :
    ∃ ts : List Token, ts.map Token.kind = ks ∧
      scanFrom offset ([' '].intercalate (ks.map Token.Kind.written)) = ts.map .token := by
  induction ks generalizing offset with
  | nil => exact ⟨[], rfl, by simp [List.intercalate, scanFrom]⟩
  | cons k ks ih =>
    have first {b : List Char} (ends : EndsToken b) :=
      scanFrom_written offset (writable k (by simp)) (back k (by simp)) ends
    have rest (offset : Nat) := ih offset (fun k hk => writable k (by simp [hk]))
      fun k hk => back k (by simp [hk])
    by_cases none : ks = []
    · subst none
      refine ⟨[⟨k, ⟨offset, offset + byteLength k.written⟩⟩], rfl, ?_⟩
      simpa [scanFrom] using first (b := []) (by simp [EndsToken])
    · obtain ⟨ts, kinds, scanned⟩ := rest (offset + byteLength k.written + byteLength [' '])
      refine ⟨⟨k, ⟨offset, offset + byteLength k.written⟩⟩ :: ts, by simp [kinds], ?_⟩
      have blank : ∀ c ∈ [' '], isFiller c = true := by simp [isFiller]
      rw [List.map_cons, List.intercalate_cons_of_ne_nil (by simpa using none), List.append_assoc,
        first (by rintro c ⟨⟩; rfl), scanFrom_fillers _ blank, scanned]
      rfl

/-- The tokens of a printed program are those that were written. -/
theorem tokens_printed {ss : List Stmt} (writable : ∀ k ∈ kindsOfStmts ss, k.isWritable = true)
    (back : ∀ k ∈ kindsOfStmts ss, k.ReadsBack) :
    ∃ ts, tokens (printed ss) = .ok ts ∧ ts.map Token.kind = kindsOfStmts ss := by
  obtain ⟨ts, kinds, scanned⟩ := scanFrom_intercalate 0 writable back
  have found : TokensAt (printed ss) ts := by rw [TokensAt, printed, String.toList_ofList, scanned]
  exact ⟨_, found.tokens_eq, by rw [map_kind_move, kinds]⟩

end BraceScript
