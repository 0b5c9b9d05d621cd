-- How a text is scanned: piece by piece, in order, and up to each line break
-- without a look at what is behind it, unless a text in quotes is still open.
import BraceScript.Proofs.Moved
import BraceScript.Text.Blank
import BraceScript.Token.Scan

namespace BraceScript

/-! ## Piece by piece -/

def Item.span : Item → Span
  | .token t => t.span
  | .mistake e => e.span

/-- The item that the first piece of a text makes, if it makes any. -/
def Piece.items (p : Piece) (span : Span) : List Item :=
  match p with
  | .filler => []
  | .token kind => [.token ⟨kind, span⟩]
  | .mistake cause => [.mistake ⟨cause, span⟩]

theorem Piece.span_of_mem_items {p : Piece} {span : Span} {item : Item}
    (h : item ∈ p.items span) : item.span = span := by
  cases p <;> simp_all [Piece.items, Item.span]

/-- A text is scanned piece by piece. -/
theorem scanFrom_cons (offset : Nat) (c : Char) (cs : List Char) :
    scanFrom offset (c :: cs) =
      (cut c cs).piece.items ⟨offset, offset + byteLength (cut c cs).taken⟩ ++
        scanFrom (offset + byteLength (cut c cs).taken) (cut c cs).rest := by
  rw [scanFrom]
  split
  · next h => rw [h]; rfl
  · next h => rw [h]; rfl
  · next h => rw [h]; rfl

/-- An item takes up some characters of what is scanned. -/
theorem span_of_mem_scanFrom {offset : Nat} {cs : List Char} {item : Item}
    (h : item ∈ scanFrom offset cs) : ∃ before piece after, cs = before ++ (piece ++ after) ∧
      item.span = ⟨offset + byteLength before, offset + byteLength (before ++ piece)⟩ := by
  induction hn : cs.length using Nat.strongRecOn generalizing offset cs with
  | ind n ih =>
    subst hn
    cases cs with
    | nil => simp [scanFrom] at h
    | cons c cs =>
      have whole := cut_taken_append_rest c cs
      rw [scanFrom_cons, List.mem_append] at h
      rcases h with h | h
      · refine ⟨[], (cut c cs).taken, (cut c cs).rest, by simpa using whole.symm, ?_⟩
        simpa using Piece.span_of_mem_items h
      · obtain ⟨before, piece, after, hcs, hspan⟩ :=
          ih _ (cut_rest_length_lt c cs) h rfl
        refine ⟨(cut c cs).taken ++ before, piece, after, ?_, ?_⟩
        · rw [← whole, List.append_assoc, ← hcs]
        · rw [hspan]
          simp [Nat.add_assoc]

/-! ## Line breaks -/

section

variable {p : Char → Bool} {a : List Char}

theorem dropWhile_ne_nil (stops : ∃ c ∈ a, p c = false) : a.dropWhile p ≠ [] := by
  intro none
  have whole := List.takeWhile_append_dropWhile (p := p) (l := a)
  rw [none, List.append_nil] at whole
  obtain ⟨c, hc, stop⟩ := stops
  have all := List.all_takeWhile (p := p) (l := a)
  rw [whole, List.all_eq_true] at all
  simp [all c hc] at stop

theorem dropWhile_append_of_stop (stops : ∃ c ∈ a, p c = false) (b : List Char) :
    (a ++ b).dropWhile p = a.dropWhile p ++ b := by
  rw [List.dropWhile_append, if_neg (by simpa using dropWhile_ne_nil stops)]

theorem takeWhile_append_of_stop (stops : ∃ c ∈ a, p c = false) (b : List Char) :
    (a ++ b).takeWhile p = a.takeWhile p := by
  have whole := congrArg List.length (List.takeWhile_append_dropWhile (p := p) (l := a))
  have some := List.length_pos_iff.2 (dropWhile_ne_nil stops)
  rw [List.length_append] at whole
  rw [List.takeWhile_append, if_neg (by omega)]

variable (stops : p '\n' = false) (a b : List Char)
include stops

theorem dropWhile_break : (a ++ '\n' :: b).dropWhile p = a.dropWhile p ++ '\n' :: b := by
  rw [List.dropWhile_append]
  split
  · next none => rw [List.isEmpty_iff.1 none, List.dropWhile_cons_of_neg (by simp [stops])]; rfl
  · rfl

theorem takeWhile_break : (a ++ '\n' :: b).takeWhile p = a.takeWhile p := by
  rw [List.takeWhile_append]
  split
  · next all =>
    rw [List.takeWhile_cons_of_neg (by simp [stops]), List.append_nil]
    exact ((List.takeWhile_sublist p).eq_of_length all).symm
  · rfl

end

theorem isPrefixOf_break {l : List Char} (h : '\n' ∉ l) (a b : List Char) :
    l.isPrefixOf (a ++ '\n' :: b) = l.isPrefixOf a := by
  induction l generalizing a with
  | nil => simp
  | cons c l ih =>
    simp only [List.mem_cons, not_or] at h
    cases a with
    | nil =>
      have ne : (c == '\n') = false := by simpa using Ne.symm h.1
      rw [List.nil_append, List.isPrefixOf_cons_cons, ne]
      rfl
    | cons d a => simp only [List.cons_append, List.isPrefixOf_cons_cons, ih h.2]

theorem Sign.break_not_mem_chars (s : Sign) : '\n' ∉ s.chars := by
  cases s <;> decide

/-- What is behind a line break goes to what is left over. -/
def Cut.behind (front : Cut) (b : List Char) : Cut :=
  { front with rest := front.rest ++ '\n' :: b }

theorem cutNumber_break (a b : List Char) :
    cutNumber (a ++ '\n' :: b) = (cutNumber a).behind b := by
  have stops : Number.isDigit '\n' = false := by decide
  simp only [cutNumber, takeWhile_break stops, dropWhile_break stops]
  cases h : a.dropWhile Number.isDigit with
  | nil => rfl
  | cons d rest =>
    by_cases hd : d = '.'
    · subst hd
      simp [Cut.behind, takeWhile_break stops, dropWhile_break stops]
    · split
      · next heq => cases heq; exact absurd rfl hd
      · next whole _ =>
        split
        · next heq => cases heq; exact absurd rfl hd
        · rfl

theorem cutWord_break (a b : List Char) : cutWord (a ++ '\n' :: b) = (cutWord a).behind b := by
  have stops : continuesWord '\n' = false := by decide
  simp only [cutWord, Cut.behind, takeWhile_break stops, dropWhile_break stops]

theorem cutComment_break (a b : List Char) :
    cutComment (a ++ '\n' :: b) = (cutComment a).behind b := by
  have stops : ('\n' != '\n') = false := by decide
  simp only [cutComment, Cut.behind, takeWhile_break (p := (· != '\n')) stops,
    dropWhile_break (p := (· != '\n')) stops]

theorem cutSign_break (c : Char) (a b : List Char) :
    cutSign c (a ++ '\n' :: b) = (cutSign c a).behind b := by
  have same : (fun s : Sign => s.chars.isPrefixOf (c :: (a ++ '\n' :: b))) =
      fun s : Sign => s.chars.isPrefixOf (c :: a) := by
    funext s
    exact isPrefixOf_break s.break_not_mem_chars (c :: a) b
  simp only [cutSign, same]
  cases h : Sign.all.find? fun s => s.chars.isPrefixOf (c :: a) with
  | none => rfl
  | some s =>
    have begins : s.chars.isPrefixOf (c :: a) = true := by simpa using List.find?_some h
    have short := (List.isPrefixOf_iff_prefix.1 begins).length_le
    simp only [Cut.behind, ← List.cons_append, List.drop_append_of_le_length short]

theorem cutText_break {quote : Char} {a : List Char} (closed : quote ∈ a) (b : List Char) :
    cutText quote (a ++ '\n' :: b) = (cutText quote a).behind b := by
  have closes : ∃ c ∈ a, (c != quote) = false := ⟨quote, closed, by simp⟩
  simp only [cutText, takeWhile_append_of_stop closes, dropWhile_append_of_stop closes]
  cases h : a.dropWhile (· != quote) with
  | cons d rest => rfl
  | nil => exact absurd h (dropWhile_ne_nil closes)

/-- The piece at the front of a text stays what it is before a line break, unless it is a text
in quotes that is not closed by then. -/
theorem cut_break {c : Char} {a : List Char} (closed : isQuote c = true → c ∈ a)
    (b : List Char) : cut c (a ++ '\n' :: b) = (cut c a).behind b := by
  have comment : ((a ++ '\n' :: b).head? == some '/') = (a.head? == some '/') := by
    cases a <;> rfl
  unfold cut
  rw [comment]
  split
  · rfl
  split
  · exact cutNumber_break (c :: a) b
  split
  · exact cutWord_break (c :: a) b
  split
  · next hc => exact cutText_break (closed hc) b
  split
  · exact cutComment_break (c :: a) b
  · exact cutSign_break c a b

/-! ## Where a text stands -/

def Item.move (g : Nat → Nat) : Item → Item
  | .token t => .token (t.move g)
  | .mistake e => .mistake { e with span := e.span.move g }

theorem Item.span_move (g : Nat → Nat) (item : Item) : (item.move g).span = item.span.move g := by
  cases item <;> rfl

theorem tokens_of_move {g : Nat → Nat} {items : List Item} {vs : List Token}
    (h : vs.map .token = items.map (Item.move g)) :
    ∃ ws : List Token, items = ws.map .token ∧ vs = ws.map (Token.move g) := by
  induction items generalizing vs with
  | nil => exact ⟨[], rfl, by simpa using h⟩
  | cons item items ih =>
    obtain ⟨v, vs, rfl, hv, hvs⟩ := List.map_eq_cons_iff.1 h
    obtain ⟨ws, rfl, rfl⟩ := ih hvs
    cases item with
    | token w =>
      cases hv
      exact ⟨w :: ws, rfl, rfl⟩
    | mistake e => cases hv

/-- The items of a text that stands further to the right. -/
theorem scanFrom_add (offset n : Nat) (cs : List Char) :
    scanFrom (offset + n) cs = (scanFrom offset cs).map (Item.move (· + n)) := by
  induction hn : cs.length using Nat.strongRecOn generalizing offset cs with
  | ind _ ih =>
    subst hn
    cases cs with
    | nil => simp [scanFrom]
    | cons c cs =>
      rw [scanFrom_cons, scanFrom_cons, List.map_append, Nat.add_right_comm,
        ih _ (cut_rest_length_lt c cs) _ _ rfl]
      congr 1
      cases (cut c cs).piece <;> rfl

theorem start_of_mem_scanFrom {offset : Nat} {cs : List Char} {item : Item}
    (h : item ∈ scanFrom offset cs) : offset ≤ item.span.start := by
  obtain ⟨before, piece, after, -, hspan⟩ := span_of_mem_scanFrom h
  rw [hspan]
  exact Nat.le_add_right _ _

theorem start_le_stop_of_mem_scanFrom {offset : Nat} {cs : List Char} {item : Item}
    (h : item ∈ scanFrom offset cs) : item.span.start ≤ item.span.stop := by
  obtain ⟨before, piece, after, -, hspan⟩ := span_of_mem_scanFrom h
  rw [hspan]
  simp only [byteLength_append]
  omega

theorem stop_of_mem_scanFrom {offset : Nat} {cs : List Char} {item : Item}
    (h : item ∈ scanFrom offset cs) : item.span.stop ≤ offset + byteLength cs := by
  obtain ⟨before, piece, after, rfl, hspan⟩ := span_of_mem_scanFrom h
  rw [hspan]
  simp only [byteLength_append]
  omega

/-- The items of a text stand one behind the other. -/
theorem scanFrom_ordered (offset : Nat) (cs : List Char) :
    (scanFrom offset cs).Pairwise fun i j => i.span.stop ≤ j.span.start := by
  induction hn : cs.length using Nat.strongRecOn generalizing offset cs with
  | ind _ ih =>
    subst hn
    cases cs with
    | nil => simp [scanFrom]
    | cons c cs =>
      rw [scanFrom_cons, List.pairwise_append]
      refine ⟨?_, ih _ (cut_rest_length_lt c cs) _ _ rfl, fun i hi j hj => ?_⟩
      · cases (cut c cs).piece <;> simp [Piece.items]
      · rw [Piece.span_of_mem_items hi]
        exact start_of_mem_scanFrom hj

theorem cut_of_isQuote {c : Char} (quote : isQuote c = true) (cs : List Char) :
    cut c cs = cutText c cs := by
  simp only [isQuote, Bool.or_eq_true, beq_iff_eq] at quote
  rcases quote with (rfl | rfl) | rfl <;>
    simp [cut, isFiller, Number.isDigit, beginsWord, isQuote]

theorem exists_mistake_of_open (offset : Nat) {quote : Char} {inside : List Char}
    (hquote : isQuote quote = true) (open_ : quote ∉ inside) :
    ∃ e, .mistake e ∈ scanFrom offset (quote :: inside) := by
  have unclosed : inside.dropWhile (· != quote) = [] := by
    have all : ∀ c ∈ inside, (c != quote) = true := fun c hc => by
      simp only [bne_iff_ne]
      rintro rfl
      exact open_ hc
    rw [← List.append_nil inside, List.dropWhile_append_of_pos all]
    rfl
  rw [scanFrom_cons, cut_of_isQuote hquote, cutText, unclosed]
  exact ⟨_, List.mem_append_left _ (List.mem_singleton.2 rfl)⟩

/-- The part of a text before a line break. Either its items are those of the whole text before
the break, and the ones behind the break are those of the rest; or a text in quotes is still
open at the break. -/
theorem scanFrom_break (offset : Nat) (a : List Char) :
    (∀ b, scanFrom offset (a ++ '\n' :: b) =
      scanFrom offset a ++ scanFrom (offset + byteLength a + 1) b) ∨
    ∃ before quote inside items, a = before ++ quote :: inside ∧ isQuote quote = true ∧
      quote ∉ inside ∧ (∃ e, .mistake e ∈ scanFrom offset a) ∧
      (∀ item ∈ items, item.span.stop ≤ offset + byteLength before) ∧
      ∀ b, scanFrom offset (a ++ '\n' :: b) =
        items ++ scanFrom (offset + byteLength before) (quote :: (inside ++ '\n' :: b)) := by
  induction hn : a.length using Nat.strongRecOn generalizing offset a with
  | ind _ ih =>
    subst hn
    cases a with
    | nil =>
      apply Or.inl
      intro b
      rw [List.nil_append, scanFrom_cons]
      simp [cut, isFiller, Piece.items, scanFrom, Char.utf8Size]
    | cons c a =>
      by_cases still : isQuote c = true ∧ c ∉ a
      · exact Or.inr ⟨[], c, a, [], rfl, still.1, still.2,
          exists_mistake_of_open offset still.1 still.2, by simp, fun b => by simp⟩
      have closed : isQuote c = true → c ∈ a :=
        fun hc => Decidable.by_contra fun hmem => still ⟨hc, hmem⟩
      have whole := cut_taken_append_rest c a
      have step (b : List Char) : scanFrom offset (c :: a ++ '\n' :: b) =
          (cut c a).piece.items ⟨offset, offset + byteLength (cut c a).taken⟩ ++
            scanFrom (offset + byteLength (cut c a).taken) ((cut c a).rest ++ '\n' :: b) := by
        rw [List.cons_append, scanFrom_cons, cut_break closed]
        rfl
      rcases ih _ (cut_rest_length_lt c a) (offset + byteLength (cut c a).taken) _ rfl with
        apart | ⟨before, quote, inside, items, hrest, hquote, hinside, ⟨e, he⟩, hitems, hscan⟩
      · apply Or.inl
        intro b
        have length : offset + byteLength (cut c a).taken + byteLength (cut c a).rest =
            offset + byteLength (c :: a) := by
          rw [← whole, byteLength_append, Nat.add_assoc]
        rw [step, apart, scanFrom_cons, List.append_assoc, length]
      · refine Or.inr ⟨(cut c a).taken ++ before, quote, inside,
          (cut c a).piece.items ⟨offset, offset + byteLength (cut c a).taken⟩ ++ items,
          by rw [← whole, hrest, List.append_assoc], hquote, hinside, ⟨e, ?_⟩, ?_, fun b => ?_⟩
        · rw [scanFrom_cons]
          exact List.mem_append_right _ he
        · intro item hitem
          rw [byteLength_append, ← Nat.add_assoc]
          rcases List.mem_append.1 hitem with hitem | hitem
          · rw [Piece.span_of_mem_items hitem]
            exact Nat.le_add_right _ _
          · exact hitems item hitem
        · rw [step, hscan, byteLength_append, ← Nat.add_assoc, List.append_assoc]

/-! ## Texts in quotes that are still open -/

theorem exists_item_of_isQuote (offset : Nat) {quote : Char} (hquote : isQuote quote = true)
    (cs : List Char) : ∃ item ∈ scanFrom offset (quote :: cs), item.span.start = offset := by
  have some : ∃ item, item ∈ (cutText quote cs).piece.items
      ⟨offset, offset + byteLength (cutText quote cs).taken⟩ := by
    unfold cutText
    split <;> exact ⟨_, List.mem_singleton.2 rfl⟩
  obtain ⟨item, hitem⟩ := some
  refine ⟨item, ?_, by rw [Piece.span_of_mem_items hitem]⟩
  rw [scanFrom_cons, cut_of_isQuote hquote]
  exact List.mem_append_left _ hitem

theorem taken_of_open {quote : Char} {inside : List Char} (hquote : isQuote quote = true)
    (open_ : quote ∉ inside) (b : List Char) :
    ∃ more, (cutText quote (inside ++ '\n' :: b)).taken = quote :: (inside ++ '\n' :: more) := by
  have ne : ('\n' != quote) = true := by
    simp only [bne_iff_ne]
    rintro rfl
    simp [isQuote] at hquote
  have all : ∀ c ∈ inside, (c != quote) = true := fun c hc => by
    simp only [bne_iff_ne]
    rintro rfl
    exact open_ hc
  have body : (inside ++ '\n' :: b).takeWhile (· != quote) =
      inside ++ '\n' :: b.takeWhile (· != quote) := by
    rw [List.takeWhile_append_of_pos all, List.takeWhile_cons, ne]
    rfl
  unfold cutText
  rw [body]
  split
  · exact ⟨b.takeWhile (· != quote) ++ [quote], by simp⟩
  · exact ⟨b.takeWhile (· != quote), by simp⟩

/-- What begins with a quote that is still open at a line break goes on behind the break. -/
theorem stop_of_mem_open {offset : Nat} {quote : Char} {inside b : List Char} {item : Item}
    (hquote : isQuote quote = true) (open_ : quote ∉ inside)
    (h : item ∈ scanFrom offset (quote :: (inside ++ '\n' :: b))) :
    offset + byteLength (quote :: inside) < item.span.stop := by
  obtain ⟨more, taken⟩ := taken_of_open hquote open_ b
  have length : byteLength (quote :: inside) < byteLength (quote :: (inside ++ '\n' :: more)) := by
    have := Char.utf8Size_pos '\n'
    simp only [byteLength_cons, byteLength_append]
    omega
  rw [scanFrom_cons, cut_of_isQuote hquote, taken] at h
  rcases List.mem_append.1 h with h | h
  · rw [Piece.span_of_mem_items h]
    dsimp only
    omega
  · have := start_of_mem_scanFrom h
    have := start_le_stop_of_mem_scanFrom h
    omega

/-! ## Texts without mistakes -/

/-- A text has tokens exactly if all of its items are tokens. -/
theorem tokens_eq_ok_iff {source : String} {ts : List Token} :
    tokens source = .ok ts ↔ scan source = ts.map .token := by
  have clean (items : List Item) :
      untilMistake items = (ts, none) ↔ items = ts.map .token := by
    induction items generalizing ts with
    | nil => cases ts <;> simp [untilMistake]
    | cons item items ih =>
      cases item with
      | token t =>
        cases ts with
        | nil => simp [untilMistake]
        | cons u ts => simp [untilMistake, Prod.ext_iff, ← ih, and_assoc]
      | mistake e => cases ts <;> simp [untilMistake]
  rw [← clean]
  unfold tokens
  split
  · next heq => simp [heq]
  · next heq => simp [heq]

theorem not_mistake_mem {source : String} {ts : List Token} (h : tokens source = .ok ts)
    (e : LexicalError) : .mistake e ∉ scanFrom 0 source.toList := by
  intro mem
  have held := List.mem_map_of_mem (f := Item.clamp) mem
  rw [← scan, tokens_eq_ok_iff.1 h] at held
  simp [Item.clamp] at held

/-! ## Ranges of bytes and spans -/

/-- The spans of a text hold what its ranges of bytes are. -/
theorem scan_eq_map (source : String) :
    scan source = (scanFrom 0 source.toList).map (Item.move Span.hold) :=
  List.map_congr_left fun item _ => by cases item <;> rfl

/-- In a text that is short enough they are the same. -/
theorem scan_of_le {source : String} (short : source.utf8ByteSize ≤ Span.limit) :
    scan source = scanFrom 0 source.toList := by
  rw [scan_eq_map]
  refine (List.map_congr_left fun item hitem => ?_).trans (List.map_id _)
  have stop := stop_of_mem_scanFrom hitem
  have start := start_le_stop_of_mem_scanFrom hitem
  rw [Nat.zero_add, byteLength_toList] at stop
  have same : item.span.move Span.hold = item.span := by
    rw [Span.move, Span.hold_of_le (by omega), Span.hold_of_le (by omega)]
  cases item with
  | token t => exact congrArg (fun span => Item.token ⟨t.kind, span⟩) same
  | mistake e => exact congrArg (fun span => Item.mistake ⟨e.cause, span⟩) same

/-- These are the tokens of the text, and no mistake is among them. Each has its range of bytes
in place of a span. -/
def TokensAt (source : String) (ts : List Token) : Prop :=
  scanFrom 0 source.toList = ts.map .token

theorem TokensAt.mem {source : String} {ts : List Token} (h : TokensAt source ts) {t : Token}
    (ht : t ∈ ts) : .token t ∈ scanFrom 0 source.toList := by
  rw [h]
  exact List.mem_map_of_mem ht

theorem tokensAt_of_tokens {source : String} {ts : List Token} (h : tokens source = .ok ts) :
    ∃ us, TokensAt source us ∧ ts = us.map (Token.move Span.hold) :=
  tokens_of_move ((tokens_eq_ok_iff.1 h).symm.trans (scan_eq_map source))

theorem TokensAt.tokens_eq {source : String} {ts : List Token} (h : TokensAt source ts) :
    tokens source = .ok (ts.map (Token.move Span.hold)) := by
  rw [tokens_eq_ok_iff, scan_eq_map, h, List.map_map, List.map_map]
  rfl

theorem TokensAt.unique {source : String} {ts us : List Token} (h : TokensAt source ts)
    (h' : TokensAt source us) : ts = us :=
  (List.map_inj_right fun _ _ => Item.token.inj).1 (h.symm.trans h')

/-- A character that begins nothing is a mistake. -/
theorem cut_unexpected {c : Char} (cs : List Char) (filler : isFiller c = false)
    (digit : Number.isDigit c = false) (word : beginsWord c = false) (quote : isQuote c = false)
    (sign : ∀ s : Sign, s.chars.head? ≠ some c) : (cut c cs).piece = .mistake (.unexpected c) := by
  have slash : (c == '/') = false := by
    have := sign .slash
    simpa [Sign.chars] using Ne.symm this
  have none : (Sign.all.find? fun s => s.chars.isPrefixOf (c :: cs)) = none := by
    refine List.find?_eq_none.2 fun s _ begins => ?_
    obtain ⟨t, ht⟩ := List.isPrefixOf_iff_prefix.1 begins
    obtain ⟨d, ds, hs⟩ := List.exists_cons_of_ne_nil s.chars_ne_nil
    rw [hs] at ht
    cases ht
    exact sign s (by simp [hs])
  simp [cut, filler, digit, word, quote, slash, cutSign, none]

/-- Fillers make no items. -/
theorem scanFrom_fillers (offset : Nat) {cs : List Char} (fillers : ∀ c ∈ cs, isFiller c = true)
    (rest : List Char) : scanFrom offset (cs ++ rest) = scanFrom (offset + byteLength cs) rest := by
  induction cs generalizing offset with
  | nil => rfl
  | cons c cs ih =>
    have piece : cut c (cs ++ rest) = { piece := .filler, taken := [c], rest := cs ++ rest } := by
      simp [cut, fillers c (by simp)]
    rw [List.cons_append, scanFrom_cons, piece, ih _ fun d hd => fillers d (by simp [hd])]
    simp [Piece.items, Nat.add_assoc]

theorem not_continuesWord_of_isBlank {c : Char} (blank : Text.isBlank c = true) :
    continuesWord c = false := by
  apply Bool.eq_false_iff.2
  intro word
  simp only [continuesWord, beginsWord, Number.isDigit, Bool.or_eq_true, Bool.and_eq_true,
    decide_eq_true_eq, beq_iff_eq, Char.le_def, UInt32.le_iff_toNat_le] at word
  simp only [Text.isBlank, Bool.or_eq_true, Bool.and_eq_true, decide_eq_true_eq,
    beq_iff_eq] at blank
  rcases word with ((word | word) | rfl) | word
  · simp at word
    omega
  · simp at word
    omega
  · simp at blank
  · simp at word
    omega

theorem isFiller_of_isBlank {c : Char} {offset : Nat} {cs : List Char}
    (blank : Text.isBlank c = true) (clean : ∀ e, .mistake e ∉ scanFrom offset (c :: cs)) :
    isFiller c = true := by
  apply Decidable.by_contra
  intro filler
  have inWord := not_continuesWord_of_isBlank blank
  have quote : isQuote c = false := by
    apply Bool.eq_false_iff.2
    intro quote
    simp only [isQuote, Bool.or_eq_true, beq_iff_eq] at quote
    rcases quote with (rfl | rfl) | rfl <;> revert blank <;> decide
  have sign : ∀ s : Sign, s.chars.head? ≠ some c := by
    intro s hs
    cases s <;> cases hs <;> revert blank <;> decide
  simp only [continuesWord, Bool.or_eq_false_iff] at inWord
  have piece := cut_unexpected cs (by simpa using filler) inWord.2 inWord.1 quote sign
  rw [scanFrom_cons, piece] at clean
  exact clean _ (List.mem_append_left _ (List.mem_singleton.2 rfl))

/-- Blanks in front of a text without mistakes are fillers. -/
theorem fillers_of_blank {offset : Nat} {cs rest : List Char}
    (blank : ∀ c ∈ cs, Text.isBlank c = true)
    (clean : ∀ e, .mistake e ∉ scanFrom offset (cs ++ rest)) : ∀ c ∈ cs, isFiller c = true := by
  induction cs generalizing offset with
  | nil => simp
  | cons c cs ih =>
    have first := isFiller_of_isBlank (blank c (by simp)) clean
    have one : ∀ d ∈ [c], isFiller d = true := by simpa using first
    have step : scanFrom offset (c :: cs ++ rest) =
        scanFrom (offset + byteLength [c]) (cs ++ rest) := scanFrom_fillers offset one (cs ++ rest)
    rw [step] at clean
    intro d hd
    rcases List.mem_cons.1 hd with rfl | hd
    · exact first
    · exact ih (fun d hd => blank d (by simp [hd])) clean d hd

/-- No text without mistakes has a point behind the blanks in front. -/
theorem not_point_behind_blanks {offset : Nat} {cs rest : List Char}
    (blank : ∀ c ∈ cs, Text.isBlank c = true)
    (clean : ∀ e, .mistake e ∉ scanFrom offset (cs ++ rest)) : rest.head? ≠ some '.' := by
  intro point
  obtain ⟨rest, rfl⟩ : ∃ more, rest = '.' :: more := by
    cases rest with
    | nil => cases point
    | cons c rest => cases point; exact ⟨rest, rfl⟩
  have piece : (cut '.' rest).piece = .mistake (.unexpected '.') :=
    cut_unexpected rest (by decide) (by decide) (by decide) (by decide)
      fun s => by cases s <;> decide
  rw [scanFrom_fillers offset (fillers_of_blank blank clean), scanFrom_cons, piece] at clean
  exact clean _ (List.mem_append_left _ (List.mem_singleton.2 rfl))

end BraceScript
