-- The braces that a session counts are those among the tokens, whatever the
-- text; and a program opens as many of them as it closes.
import BraceScript.Proofs.Grammar.Ranges
import BraceScript.Session

namespace BraceScript

open Grammar

/-! ## Braces among items -/

/-- What a token does to the number of open braces. -/
def Token.Kind.brace : Token.Kind → Int
  | .sign .leftBrace => 1
  | .sign .rightBrace => -1
  | _ => 0

def Item.brace : Item → Int
  | .token t => t.kind.brace
  | .mistake _ => 0

/-- How many more braces are opened than closed. -/
def braces : List Item → Int
  | [] => 0
  | item :: items => item.brace + braces items

@[simp] theorem braces_append (items items' : List Item) :
    braces (items ++ items') = braces items + braces items' := by
  induction items with
  | nil => simp [braces]
  | cons item items ih => simp [braces, ih, Int.add_assoc]

@[simp] theorem braces_move (g : Nat → Nat) (items : List Item) :
    braces (items.map (Item.move g)) = braces items := by
  induction items with
  | nil => rfl
  | cons item items ih =>
    rw [List.map_cons, braces, ih, braces]
    cases item <;> rfl

/-! ## Counting in 32 bits -/

theorem add_ofInt_zero (n : Int32) : n + .ofInt 0 = n := n.add_zero

theorem maxValue_toInt : Int32.maxValue.toInt = 2147483647 := rfl

/-- A number that wraps around to itself is one of 32 bits. -/
theorem bmod_eq_self_iff {d : Int} :
    d.bmod Int32.size = d ↔ Int32.minValue.toInt ≤ d ∧ d ≤ Int32.maxValue.toInt := by
  have size : Int32.size = 4294967296 := rfl
  have low : Int32.minValue.toInt = -2147483648 := rfl
  rw [size, low, maxValue_toInt, Int.bmod_def]
  split <;> omega

/-! ## Counting piece by piece -/

/-- A character that is not looked at while braces are counted. -/
def isPlain (c : Char) : Prop := isQuote c = false ∧ c ≠ '{' ∧ c ≠ '}' ∧ c ≠ '/'

variable {n : Int32} {c : Char} {cs : List Char}

theorem countBraces_plain {l : List Char} (plain : ∀ c ∈ l, isPlain c) (cs : List Char) :
    countBraces n none false (l ++ cs) = countBraces n none false cs := by
  induction l with
  | nil => rfl
  | cons c l ih =>
    obtain ⟨quote, left, right, slash⟩ := plain c (by simp)
    rw [List.cons_append, countBraces]
    simp only [Bool.false_eq_true, if_false, quote, left, right, slash, decide_false,
      Bool.false_and]
    exact ih fun d hd => plain d (by simp [hd])

theorem countBraces_quote (n : Int32) (quote : Char) (cs : List Char) :
    countBraces n (some quote) false cs =
      countBraces n none false (cs.dropWhile (· != quote)).tail := by
  induction cs with
  | nil => rfl
  | cons c cs ih =>
    rw [countBraces, List.dropWhile_cons]
    by_cases hc : c = quote
    · simp [hc]
    · simp [hc, ih]

theorem countBraces_inComment (n : Int32) (cs : List Char) :
    countBraces n none true cs = countBraces n none false (cs.dropWhile (· != '\n')) := by
  induction cs with
  | nil => rfl
  | cons c cs ih =>
    rw [countBraces, List.dropWhile_cons]
    by_cases hc : c = '\n'
    · subst hc
      simp [countBraces, isQuote]
    · have : (c != '\n') = true := by simpa using hc
      simp [this, ih]

theorem isPlain_of_isFiller (h : isFiller c = true) : isPlain c := by
  simp only [isFiller, Bool.or_eq_true, beq_iff_eq] at h
  rcases h with (((rfl | rfl) | rfl) | rfl) | rfl <;> simp [isPlain, isQuote]

theorem isPlain_of_continuesWord (h : continuesWord c = true) : isPlain c := by
  refine ⟨Bool.eq_false_iff.2 fun quote => ?_, ?_, ?_, ?_⟩
  · simp only [isQuote, Bool.or_eq_true, beq_iff_eq] at quote
    rcases quote with (rfl | rfl) | rfl <;> simp [continuesWord, beginsWord, Number.isDigit] at h
  all_goals
    rintro rfl
    simp [continuesWord, beginsWord, Number.isDigit] at h

theorem isPlain_of_isDigit (h : Number.isDigit c = true) : isPlain c :=
  isPlain_of_continuesWord (by simp [continuesWord, h])

theorem isPlain_point : isPlain '.' := by simp [isPlain, isQuote]

/-- What the piece does to the number of open braces. -/
def Piece.brace : Piece → Int
  | .token kind => kind.brace
  | _ => 0

theorem Piece.braces_items (p : Piece) (span : Span) : braces (p.items span) = p.brace := by
  cases p <;> simp [Piece.items, braces, Item.brace, Piece.brace]

theorem Piece.brace_classifyWord (word : String) : (classifyWord word).brace = 0 := by
  unfold classifyWord
  repeat' split
  all_goals rfl

theorem isPlain_of_mem_cutNumber (cs : List Char) : ∀ c ∈ (cutNumber cs).taken, isPlain c := by
  have digits (l : List Char) : ∀ c ∈ l.takeWhile Number.isDigit, isPlain c :=
    fun c hc => isPlain_of_isDigit (List.all_eq_true.1 List.all_takeWhile c hc)
  unfold cutNumber
  split
  · intro c hc
    rcases List.mem_append.1 hc with hc | hc
    · exact digits _ c hc
    · rcases List.mem_cons.1 hc with rfl | hc
      · exact isPlain_point
      · exact digits _ c hc
  · exact digits cs

theorem Piece.brace_cutNumber (cs : List Char) : (cutNumber cs).piece.brace = 0 := by
  unfold cutNumber
  split <;> rfl

theorem countBraces_number (n : Int32) (cs : List Char) : countBraces n none false cs =
    countBraces n none false (cutNumber cs).rest := by
  have := countBraces_plain (n := n) (isPlain_of_mem_cutNumber cs) (cutNumber cs).rest
  rwa [cutNumber_taken_append_rest] at this

theorem countBraces_word (n : Int32) (cs : List Char) : countBraces n none false cs =
    countBraces n none false (cutWord cs).rest := by
  have plain : ∀ c ∈ (cutWord cs).taken, isPlain c :=
    fun c hc => isPlain_of_continuesWord (List.all_eq_true.1 List.all_takeWhile c hc)
  have := countBraces_plain (n := n) plain (cutWord cs).rest
  rwa [cutWord, List.takeWhile_append_dropWhile] at this

theorem countBraces_text (n : Int32) (cs : List Char) (quote : isQuote c = true) :
    countBraces n none false (c :: cs) = countBraces n none false (cutText c cs).rest := by
  rw [countBraces]
  simp only [Bool.false_eq_true, if_false, quote, if_true, countBraces_quote]
  unfold cutText
  split <;> simp [*]

theorem Piece.brace_cutText (c : Char) (cs : List Char) : (cutText c cs).piece.brace = 0 := by
  unfold cutText
  split <;> rfl

theorem countBraces_comment (n : Int32) (cs : List Char) (slash : c = '/' ∧ cs.head? = some '/') :
    countBraces n none false (c :: cs) = countBraces n none false (cutComment (c :: cs)).rest := by
  obtain ⟨rfl, head⟩ := slash
  rw [countBraces]
  simp [isQuote, head, countBraces_inComment, cutComment]

/-- The signs that a count looks at are braces, and the slash, for a comment may begin there. -/
theorem Sign.counted (s : Sign) : s = .leftBrace ∨ s = .rightBrace ∨ s = .slash ∨
    (∀ c ∈ s.chars, isPlain c) ∧ (Token.Kind.sign s).brace = 0 := by
  cases s <;> simp [Sign.chars, isPlain, isQuote, Token.Kind.brace]

theorem countBraces_sign (n : Int32) (cs : List Char) (quote : isQuote c = false)
    (slash : ¬ (c = '/' ∧ cs.head? = some '/')) :
    countBraces n none false (c :: cs) =
      countBraces (n + .ofInt (cutSign c cs).piece.brace) none false (cutSign c cs).rest := by
  unfold cutSign
  split
  · next s hs =>
    have begins : s.chars.isPrefixOf (c :: cs) = true := by simpa using List.find?_some hs
    obtain ⟨t, ht⟩ := List.isPrefixOf_iff_prefix.1 begins
    rw [← ht, List.drop_left]
    rcases s.counted with rfl | rfl | rfl | ⟨plain, none⟩
    · simp [Sign.chars, countBraces, isQuote, Piece.brace, Token.Kind.brace]
    · simp [Sign.chars, countBraces, isQuote, Piece.brace, Token.Kind.brace,
        Int32.sub_eq_add_neg, Int32.ofInt_neg]
    · obtain ⟨rfl, rfl⟩ : '/' = c ∧ t = cs := by simpa [Sign.chars] using ht
      have other : (t.head? == some '/') = false := by simpa using slash
      simp [Sign.chars, countBraces, isQuote, Piece.brace, Token.Kind.brace, other]
    · rw [countBraces_plain plain, Piece.brace, none, add_ofInt_zero]
  · next none =>
    have missing (s : Sign) (hs : s ∈ Sign.all) : ¬ s.chars <+: c :: cs := by
      simpa using List.find?_eq_none.1 none s hs
    have plain : ∀ d ∈ [c], isPlain d := by
      simp only [List.mem_singleton, forall_eq]
      refine ⟨quote, ?_, ?_, ?_⟩ <;> rintro rfl
      · simpa [Sign.chars] using missing .leftBrace (by decide)
      · simpa [Sign.chars] using missing .rightBrace (by decide)
      · simpa [Sign.chars] using missing .slash (by decide)
    simpa [Piece.brace] using countBraces_plain plain cs

/-- Counting goes on behind the piece at the front. -/
theorem countBraces_cut (n : Int32) (c : Char) (cs : List Char) :
    countBraces n none false (c :: cs) =
      countBraces (n + .ofInt (cut c cs).piece.brace) none false (cut c cs).rest := by
  unfold cut
  split
  · next filler =>
    have plain : ∀ d ∈ [c], isPlain d := by simpa using isPlain_of_isFiller filler
    simpa [Piece.brace] using countBraces_plain plain cs
  split
  · rw [Piece.brace_cutNumber, add_ofInt_zero, countBraces_number]
  split
  · rw [cutWord, Piece.brace_classifyWord, add_ofInt_zero, ← cutWord,
      countBraces_word]
  split
  · next quote =>
    rw [Piece.brace_cutText, add_ofInt_zero, countBraces_text n cs quote]
  split
  · next slash =>
    rw [countBraces_comment n cs (by simpa using slash)]
    simp [cutComment, Piece.brace]
  · next quote slash => exact countBraces_sign n cs (by simpa using quote) (by simpa using slash)

/-- From a point on that is in no text and no comment, the count is that of the items there. -/
theorem countBraces_eq (n : Int32) (offset : Nat) (cs : List Char) :
    countBraces n none false cs = n + .ofInt (braces (scanFrom offset cs)) := by
  induction hn : cs.length using Nat.strongRecOn generalizing n offset cs with
  | ind _ ih =>
    subst hn
    cases cs with
    | nil => simp [countBraces, scanFrom, braces]
    | cons c cs =>
      rw [countBraces_cut, ih _ (cut_rest_length_lt c cs) _ _ _ rfl, scanFrom_cons,
        braces_append, Piece.braces_items, Int32.ofInt_add, Int32.add_assoc]

/-- What a session counts are the braces among the items, in 32 bits. -/
theorem openBraces_eq (source : String) :
    openBraces source = (braces (scanFrom 0 source.toList)).bmod Int32.size := by
  rw [openBraces, countBraces_eq 0 0, Int32.zero_add]
  exact Int32.toInt_ofInt

/-! ## Up to a line break -/

/-- How many braces are open at an offset of a text: those of its tokens up to there. -/
def bracesBefore (source : String) (offset : Nat) : Int :=
  braces ((scanFrom 0 source.toList).filter fun item => item.span.stop ≤ offset)

theorem braces_of_open {quote : Char} {inside : List Char} (hquote : isQuote quote = true)
    (open_ : quote ∉ inside) (offset : Nat) :
    braces (scanFrom offset (quote :: (inside ++ ['\n']))) = 0 := by
  obtain ⟨more, taken⟩ := taken_of_open hquote open_ []
  have whole := cutText_taken_append_rest quote (inside ++ ['\n'])
  have rest : (cutText quote (inside ++ ['\n'])).rest = [] := by
    rw [taken] at whole
    have := congrArg List.length whole
    simp only [List.length_append, List.length_cons, List.length_nil] at this
    exact List.eq_nil_of_length_eq_zero (by omega)
  rw [scanFrom_cons, cut_of_isQuote hquote, rest, braces_append, Piece.braces_items,
    Piece.brace_cutText]
  simp [scanFrom, braces]

/-- The braces that a session counts in the lines up to a line break are the ones that are open
there. -/
theorem openBraces_break {source : String} {a b : List Char}
    (h : source.toList = a ++ '\n' :: b) :
    openBraces (String.ofList (a ++ ['\n'])) =
      (bracesBefore source (byteLength a)).bmod Int32.size := by
  rw [openBraces_eq, bracesBefore, String.toList_ofList, h]
  congr 1
  rcases scanFrom_break 0 a with apart |
    ⟨before, quote, inside, items, rfl, hquote, open_, -, left, hscan⟩
  · have left : ∀ item ∈ scanFrom 0 a, item.span.stop ≤ byteLength a := fun item hitem => by
      simpa using stop_of_mem_scanFrom hitem
    have right : ∀ item ∈ scanFrom (byteLength a + 1) b, ¬ item.span.stop ≤ byteLength a := by
      intro item hitem
      have := start_of_mem_scanFrom hitem
      have := start_le_stop_of_mem_scanFrom hitem
      omega
    rw [apart, apart, List.filter_append, List.filter_eq_self.2 (by simpa using left),
      List.filter_eq_nil_iff.2 (by simpa using right)]
    simp [scanFrom]
  · have right : ∀ item ∈ scanFrom (0 + byteLength before) (quote :: (inside ++ '\n' :: b)),
        ¬ item.span.stop ≤ byteLength (before ++ quote :: inside) := fun item hitem => by
      have := stop_of_mem_open hquote open_ hitem
      rw [byteLength_append]
      omega
    have left : ∀ item ∈ items, item.span.stop ≤ byteLength (before ++ quote :: inside) :=
      fun item hitem => by
        have := left item hitem
        rw [byteLength_append]
        omega
    rw [hscan, hscan, List.filter_append, List.filter_eq_self.2 (by simpa using left),
      List.filter_eq_nil_iff.2 (by simpa using right), braces_append, braces_of_open hquote open_]
    simp

/-! ## Programs -/

variable {longest inFunction : Bool} {next : Option Token.Kind} {ts : List Token}

theorem brace_of_binaryOperator? {k : Token.Kind} {op : BinaryOperator}
    (h : k.binaryOperator? = some op) : k.brace = 0 := by
  cases k with
  | sign s =>
    cases s <;> simp_all [Token.Kind.binaryOperator?, Sign.binaryOperator?, Token.Kind.brace]
  | _ => rfl

theorem brace_of_unaryOperator? {k : Token.Kind} {op : UnaryOperator}
    (h : k.unaryOperator? = some op) : k.brace = 0 := by
  cases k with
  | sign s =>
    cases s <;> simp_all [Token.Kind.unaryOperator?, Sign.unaryOperator?, Token.Kind.brace]
  | _ => rfl

/-- There are no braces in an expression. -/
theorem Grammar.DerivesExpr.braces {phrase : Phrase} (h : DerivesExpr longest next ts phrase) :
    braces (ts.map .token) = 0 := by
  induction h with
  | operation _ hop _ ihl ihr =>
    simp [BraceScript.braces, Item.brace, brace_of_binaryOperator? hop, ihl, ihr]
  | operator hop _ ih => simp [BraceScript.braces, Item.brace, brace_of_unaryOperator? hop, ih]
  | operand _ ih | primary _ ih | valueForm _ ih | lastItem _ ih | someItems _ ih => exact ih
  | _ => simp [BraceScript.braces, Item.brace, Token.Kind.brace, *]

theorem Grammar.DerivesNames.braces {ss : List String} (h : DerivesNames ts ss) :
    braces (ts.map .token) = 0 := by
  induction h with
  | last => rfl
  | more _ ih => simpa [BraceScript.braces, Item.brace, Token.Kind.brace] using ih

theorem Grammar.DerivesParams.braces {ss : List String} (h : DerivesParams ts ss) :
    braces (ts.map .token) = 0 := by
  cases h with
  | none => rfl
  | some h => exact h.braces

/-- Statements close as many braces as they open. -/
theorem Grammar.DerivesStmt.braces {sentence : Sentence}
    (h : DerivesStmt longest inFunction next ts sentence) : braces (ts.map .token) = 0 := by
  induction h with
  | declare he | print he | assign he | returnValue _ he | index he | valueForm he =>
    simp [BraceScript.braces, Item.brace, Token.Kind.brace, he.braces]
  | call hes => simp [BraceScript.braces, Item.brace, Token.Kind.brace, hes.braces]
  | branch hc _ ih | «while» hc _ ih =>
    simp [BraceScript.braces, Item.brace, Token.Kind.brace, hc.braces, ih]
  | branchElse hc _ _ ih ih' =>
    simp [BraceScript.braces, Item.brace, Token.Kind.brace, hc.braces, ih, ih']
  | loop ha hb _ ih =>
    simp [BraceScript.braces, Item.brace, Token.Kind.brace, ha.braces, hb.braces, ih]
  | function has _ ih =>
    simp [BraceScript.braces, Item.brace, Token.Kind.brace, has.braces, ih]
  | _ => simp [BraceScript.braces, Item.brace, Token.Kind.brace, *]

/-- A program has closed all of its braces. -/
theorem TokensAt.braces_of_program {source : String} {ss : List Stmt} (hts : TokensAt source ts)
    (hss : Program longest ts ss) : braces (scanFrom 0 source.toList) = 0 := by
  rw [hts]
  exact DerivesStmt.braces hss

theorem openBraces_of_program {source : String} {ss : List Stmt}
    (program : parse source = .ok ss) : openBraces source = 0 := by
  obtain ⟨_, ⟨ts, hts, hss⟩, -⟩ := programAt_of_parse program
  rw [openBraces_eq, hts.braces_of_program hss]
  rfl

/-! ## What a session counts -/

/-- The item is the given sign. -/
def Item.isSign (s : Sign) : Item → Bool
  | .token t => t.kind = .sign s
  | .mistake _ => false

theorem Item.brace_eq (item : Item) :
    item.brace = (if item.isSign .leftBrace then 1 else 0) -
      (if item.isSign .rightBrace then 1 else 0) := by
  cases item with
  | mistake e => rfl
  | token t =>
    obtain ⟨kind, span⟩ := t
    cases kind with
    | sign s => cases s <;> rfl
    | _ => rfl

/-- Braces are weighed by counting the two signs. -/
theorem braces_eq_countP (items : List Item) :
    braces items = (items.countP (Item.isSign .leftBrace) : Int) -
      items.countP (Item.isSign .rightBrace) := by
  induction items with
  | nil => rfl
  | cons item items ih =>
    rw [braces, ih, item.brace_eq, List.countP_cons, List.countP_cons]
    push_cast
    split <;> split <;> omega

variable {host : Host} {shown : Files} {s next : Session} {line : String} {chunks : List Chunk}
  {reply : Reply}

/-- A line is only held back while a brace is open. -/
theorem Session.open_of_incomplete (h : s.feed host shown line = .ok (next, chunks, .incomplete)) :
    0 < openBraces (s.pending ++ line ++ "\n") := by
  apply Decidable.by_contra
  intro closed
  unfold feed at h
  simp only [closed, if_false] at h
  split at h
  · cases h
  split at h
  · cases h
  split at h
  · cases h
  split at h
  · cases h
  -- The text is run, and whatever comes of that, the line is done.
  · cases hrun : execute host shown { s with pending := "" } (s.pending ++ line ++ "\n") with
    | ok ran => rw [hrun] at h; cases h
    | error reason => rw [hrun] at h; cases h

/-- No text has more items than bytes. -/
theorem length_scanFrom_le (offset : Nat) (cs : List Char) :
    (scanFrom offset cs).length ≤ byteLength cs := by
  induction hn : cs.length using Nat.strongRecOn generalizing offset cs with
  | ind _ ih =>
    subst hn
    cases cs with
    | nil => simp [scanFrom]
    | cons c cs =>
      have one (span : Span) : ((cut c cs).piece.items span).length ≤ 1 := by
        cases (cut c cs).piece <;> simp [Piece.items]
      have first := one ⟨offset, offset + byteLength (cut c cs).taken⟩
      have some := byteLength_pos (cut_taken_ne_nil c cs)
      have rest := ih _ (cut_rest_length_lt c cs) (offset + byteLength (cut c cs).taken) _ rfl
      have whole := congrArg byteLength (cut_taken_append_rest c cs)
      rw [byteLength_append] at whole
      rw [scanFrom_cons, List.length_append]
      omega

theorem countP_isSign_scan (s : Sign) (source : String) :
    (scan source).countP (Item.isSign s) = (scanFrom 0 source.toList).countP (Item.isSign s) := by
  have same : Item.isSign s ∘ Item.move Span.hold = Item.isSign s := by
    funext item
    cases item <;> rfl
  rw [scan_eq_map, List.countP_map, same]

/-- A session counts the braces among the tokens of a text, whatever the text: those that are
opened less those that are closed, in 32 bits. That is the difference itself if it can be written
in 32 bits, as it can in a text of less than 2^31 bytes. A program has as many of the one as of
the other, so a line that completes one is never held back. -/
theorem a_session_counts_the_braces_of_the_tokens (source : String) :
    (∀ ss, parse source = .ok ss → openBraces source = 0 ∧
      ∀ host shown (s next : Session) line chunks reply, s.pending ++ line ++ "\n" = source →
        s.feed host shown line = .ok (next, chunks, reply) → reply ≠ .incomplete) ∧
    let difference : Int := ((scan source).countP (Item.isSign .leftBrace) : Int) -
      (scan source).countP (Item.isSign .rightBrace)
    openBraces source = difference.bmod Int32.size ∧
      (openBraces source = difference ↔
        Int32.minValue.toInt ≤ difference ∧ difference ≤ Int32.maxValue.toInt) ∧
      (source.utf8ByteSize ≤ Int32.maxValue.toInt → openBraces source = difference) := by
  refine ⟨fun ss program => ?_, ?_⟩
  · have closed := openBraces_of_program program
    refine ⟨closed, ?_⟩
    rintro host shown s next line chunks reply rfl fed rfl
    have := Session.open_of_incomplete fed
    omega
  · intro difference
    have counted : openBraces source = difference.bmod Int32.size := by
      rw [openBraces_eq, braces_eq_countP]
      simp only [difference, countP_isSign_scan]
    have fits : openBraces source = difference ↔
        Int32.minValue.toInt ≤ difference ∧ difference ≤ Int32.maxValue.toInt := by
      rw [counted, bmod_eq_self_iff]
    refine ⟨counted, fits, fun short => fits.2 ?_⟩
    have low : Int32.minValue.toInt = -Int32.maxValue.toInt - 1 := rfl
    have items := length_scanFrom_le 0 source.toList
    have left := List.countP_le_length (p := Item.isSign .leftBrace) (l := scan source)
    have right := List.countP_le_length (p := Item.isSign .rightBrace) (l := scan source)
    rw [scan, List.length_map] at left right
    rw [byteLength_toList] at items
    simp only [difference, scan]
    omega

/-- One of the four braces is in quotes and one in a comment; the other two are still open. -/
theorem two_blocks_are_open :
    let source := "show '\x7b' // \x7d\nfunc f() \x7b while (a) \x7b"
    source.utf8ByteSize ≤ Int32.maxValue.toInt ∧
      (scan source).countP (Item.isSign .leftBrace) = 2 ∧
      (scan source).countP (Item.isSign .rightBrace) = 0 ∧ openBraces source = 2 := by
  intro source
  have short : source.utf8ByteSize ≤ Int32.maxValue.toInt := by decide +kernel
  have left : (scan source).countP (Item.isSign .leftBrace) = 2 := by decide +kernel
  have right : (scan source).countP (Item.isSign .rightBrace) = 0 := by decide +kernel
  obtain ⟨-, -, -, counted⟩ := a_session_counts_the_braces_of_the_tokens source
  refine ⟨short, left, right, ?_⟩
  rw [counted short, left, right]
  rfl

end BraceScript
