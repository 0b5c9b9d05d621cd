-- Scanning loses nothing: the items of a text stand apart and in order, each of
-- them takes up the characters that it is about, and what is left over between
-- them is blanks, semicolons and comments.
import BraceScript.Proofs.Grammar.Places

namespace BraceScript

/-! ## Text that means nothing -/

/-- Nothing but blanks, semicolons and comments. A comment runs to a line break, or to the end
of the text if nothing is `after` it. -/
inductive Idle (after : List Char) : List Char → Prop where
  | nil : Idle after []
  | filler {c cs} : c ∈ [' ', '\t', '\r', '\n', ';'] → Idle after cs → Idle after (c :: cs)
  | comment {text cs} : '\n' ∉ text → (∀ c ∈ (cs ++ after).head?, c = '\n') → Idle after cs →
    Idle after ('/' :: '/' :: text ++ cs)

theorem Idle.append {a b rest : List Char} (ha : Idle (b ++ rest) a) (hb : Idle rest b) :
    Idle rest (a ++ b) := by
  induction ha with
  | nil => exact hb
  | filler hc _ ih => exact .filler hc ih
  | comment text stops _ ih =>
    rw [List.append_assoc]
    exact .comment text (by rwa [List.append_assoc]) ih

/-! ## What items take up -/

/-- The characters that an item takes up, and what is behind them. A mistake takes up the one
character that begins nothing, a whole word that is refused, or everything from an opening quote
to the end of the text. -/
inductive Item.TakesUp : Item → List Char → List Char → Prop where
  | token {t text after} : text ≠ [] → TakesUp (.token t) text after
  | unexpected {c span after} : TakesUp (.mistake ⟨.unexpected c, span⟩) [c] after
  | restricted {word hint span after} : word ≠ "" → (∀ c ∈ after.head?, continuesWord c = false) →
    TakesUp (.mistake ⟨.restricted word hint, span⟩) word.toList after
  | unterminated {quote span body} : isQuote quote = true → quote ∉ body →
    TakesUp (.mistake ⟨.unterminated quote, span⟩) (quote :: body) []

variable {offset : Nat} {c : Char} {cs text rest : List Char} {item : Item} {items : List Item}

theorem Item.TakesUp.ne_nil (h : item.TakesUp text rest) : text ≠ [] := by
  cases h with
  | token some => exact some
  | unexpected => simp
  | restricted some => simpa using some
  | unterminated => simp

/-- A piece at the front of a text is idle, or it makes one item, which takes it up. -/
def Cut.Sound (cut : Cut) : Prop :=
  (cut.piece = .filler ∧ Idle cut.rest cut.taken) ∨
    ∀ span, ∃ item, cut.piece.items span = [item] ∧ item.TakesUp cut.taken cut.rest

theorem head?_dropWhile_eq_false {p : Char → Bool} (h : c ∈ (cs.dropWhile p).head?) :
    p c = false := by
  have first := List.head?_dropWhile_not p cs
  rw [h] at first
  exact first

theorem sound_filler (hc : isFiller c = true) (cs : List Char) :
    Cut.Sound { piece := .filler, taken := [c], rest := cs } := by
  refine Or.inl ⟨rfl, .filler ?_ .nil⟩
  simpa [isFiller, or_assoc] using hc

theorem sound_number (digit : Number.isDigit c = true) (cs : List Char) :
    (cutNumber (c :: cs)).Sound := by
  apply Or.inr
  intro span
  unfold cutNumber
  split <;> exact ⟨_, rfl, .token (by simp [digit])⟩

theorem sound_word (begins : beginsWord c = true) (cs : List Char) :
    (cutWord (c :: cs)).Sound := by
  apply Or.inr
  intro span
  have some : (c :: cs).takeWhile continuesWord ≠ [] := by
    simp [continuesWord, begins]
  unfold cutWord classifyWord
  split
  · exact ⟨_, rfl, .token some⟩
  split
  · exact ⟨_, rfl, .token some⟩
  split
  · exact ⟨_, rfl, .token some⟩
  split
  · next hint _ =>
    have whole : Item.TakesUp (.mistake ⟨.restricted (String.ofList _) hint, span⟩)
        (String.ofList ((c :: cs).takeWhile continuesWord)).toList
        ((c :: cs).dropWhile continuesWord) :=
      .restricted (by simpa using some) fun d hd => head?_dropWhile_eq_false hd
    rw [String.toList_ofList] at whole
    exact ⟨_, rfl, whole⟩
  · exact ⟨_, rfl, .token some⟩

theorem sound_text (quote : isQuote c = true) (cs : List Char) : (cutText c cs).Sound := by
  apply Or.inr
  intro span
  unfold cutText
  split
  · exact ⟨_, rfl, .token (by simp)⟩
  · refine ⟨_, rfl, .unterminated quote fun closed => ?_⟩
    have all := List.all_eq_true.1 (List.all_takeWhile (p := (· != c)) (l := cs)) c closed
    simp at all

theorem sound_comment (cs : List Char) : (cutComment ('/' :: '/' :: cs)).Sound := by
  refine Or.inl ⟨rfl, ?_⟩
  have text : '\n' ∉ cs.takeWhile (· != '\n') := fun mem => by
    have all := List.all_eq_true.1 (List.all_takeWhile (p := (· != '\n')) (l := cs)) _ mem
    simp at all
  have stops : ∀ c ∈ ([] ++ cs.dropWhile (· != '\n')).head?, c = '\n' := fun c hc => by
    simpa using head?_dropWhile_eq_false hc
  have idle : Idle (cs.dropWhile (· != '\n')) _ := .comment text stops .nil
  simpa [cutComment] using idle

theorem sound_sign (c : Char) (cs : List Char) : (cutSign c cs).Sound := by
  apply Or.inr
  intro span
  unfold cutSign
  split
  · exact ⟨_, rfl, .token (Sign.chars_ne_nil _)⟩
  · exact ⟨_, rfl, .unexpected⟩

/-- Whatever is at the front of a text. -/
theorem sound_cut (c : Char) (cs : List Char) : (cut c cs).Sound := by
  unfold cut
  split
  · next filler => exact sound_filler filler cs
  split
  · next digit => exact sound_number digit cs
  split
  · next begins => exact sound_word begins cs
  split
  · next quote => exact sound_text quote cs
  split
  · next slash =>
    obtain ⟨rfl, head⟩ : c = '/' ∧ cs.head? = some '/' := by simpa using slash
    obtain ⟨rest, rfl⟩ := List.head?_eq_some_iff.1 head
    exact sound_comment rest
  · exact sound_sign c cs

/-! ## Whole texts -/

/-- The items of a text that begins at an offset, and nothing but idle text around them. -/
inductive Covers : Nat → List Char → List Item → Prop where
  | last {offset : Nat} {gap : List Char} : Idle [] gap → Covers offset gap []
  | item {offset : Nat} {gap text rest : List Char} {item : Item} {items : List Item} :
    Idle (text ++ rest) gap → item.TakesUp text rest →
    item.span = ⟨offset + byteLength gap, offset + byteLength gap + byteLength text⟩ →
    Covers (offset + byteLength gap + byteLength text) rest items →
    Covers offset (gap ++ (text ++ rest)) (item :: items)

/-- Idle text in front of a text goes with what is idle there. -/
theorem Covers.idle {front : List Char} (idle : Idle cs front)
    (h : Covers (offset + byteLength front) cs items) : Covers offset (front ++ cs) items := by
  cases h with
  | last more => exact .last (Idle.append (by simpa using idle) more)
  | @item _ gap text rest item items more takes span tail =>
    have length : offset + byteLength (front ++ gap) = offset + byteLength front + byteLength gap :=
      by rw [byteLength_append, Nat.add_assoc]
    rw [← List.append_assoc]
    exact .item (idle.append more) takes (by rw [span, length]) (by rwa [length])

theorem covers_scanFrom (offset : Nat) (cs : List Char) :
    Covers offset cs (scanFrom offset cs) := by
  induction hn : cs.length using Nat.strongRecOn generalizing offset cs with
  | ind _ ih =>
    subst hn
    cases cs with
    | nil =>
      rw [scanFrom]
      exact .last .nil
    | cons c cs =>
      have behind := ih _ (cut_rest_length_lt c cs) (offset + byteLength (cut c cs).taken) _ rfl
      rw [scanFrom_cons]
      rcases sound_cut c cs with ⟨filler, idle⟩ | item
      · rw [filler, ← cut_taken_append_rest c cs]
        exact .idle idle behind
      · obtain ⟨item, hitem, takes⟩ := item ⟨offset, offset + byteLength (cut c cs).taken⟩
        have span := Piece.span_of_mem_items (hitem ▸ List.mem_singleton_self item)
        have cover : Covers offset ([] ++ (_ ++ _)) (item :: _) :=
          .item .nil takes (by simpa using span) behind
        rw [hitem]
        rwa [List.nil_append, cut_taken_append_rest] at cover

/-! ## Stretches of a source -/

/-- In a span, the source reads `text`, and behind it `after`. -/
def Reads (source : String) (span : Span) (text after : List Char) : Prop :=
  ∃ before, source.toList = before ++ (text ++ after) ∧ span.start = byteLength before ∧
    span.stop = byteLength (before ++ text)

/-- The stretches around items: in front of each of them, from the end of the one before it on,
and behind the last one, up to `stop`. -/
def gaps (stop : Nat) : Nat → List Item → List Span
  | start, [] => [⟨start, stop⟩]
  | start, item :: items => ⟨start, item.span.start⟩ :: gaps stop item.span.stop items

section

variable {source : String} {before : List Char} (hsource : source.toList = before ++ cs)
  (h : Covers (byteLength before) cs items)
include hsource h

theorem Covers.takesUp (hitem : item ∈ items) :
    ∃ text after, Reads source item.span text after ∧ item.TakesUp text after := by
  generalize hoffset : byteLength before = offset at h
  induction h generalizing before with
  | last => simp at hitem
  | @item _ gap text rest _ _ _ takes span _ ih =>
    subst hoffset
    rcases List.mem_cons.1 hitem with rfl | hitem
    · exact ⟨text, rest, ⟨before ++ gap, by simp [hsource], by simp [span],
        by simp [span, Nat.add_assoc]⟩, takes⟩
    · exact @ih (before ++ gap ++ text) (by simp [hsource]) hitem (by simp [Nat.add_assoc])

theorem Covers.gaps {gap : Span}
    (hgap : gap ∈ gaps source.utf8ByteSize (byteLength before) items) :
    ∃ text after, Reads source gap text after ∧ Idle after text := by
  generalize hoffset : byteLength before = offset at h hgap
  induction h generalizing before with
  | @last _ text idle =>
    obtain rfl := List.mem_singleton.1 hgap
    refine ⟨text, [], ⟨before, by simpa using hsource, hoffset.symm, ?_⟩, idle⟩
    rw [← hsource, byteLength_toList]
  | @item _ idleText text rest _ _ idle _ span _ ih =>
    subst hoffset
    rcases List.mem_cons.1 hgap with rfl | hgap
    · exact ⟨idleText, text ++ rest, ⟨before, hsource, rfl, by simp [span]⟩, idle⟩
    · rw [span] at hgap
      exact @ih (before ++ idleText ++ text) (by simp [hsource]) (by simp [Nat.add_assoc]) hgap

end

theorem Covers.eq_nil (h : Covers offset [] items) : items = [] := by
  generalize hcs : ([] : List Char) = cs at h
  cases h with
  | last => rfl
  | item _ takes => simp [takes.ne_nil] at hcs

/-- A text in quotes that is not closed comes last. -/
theorem Covers.unterminated_last {quote : Char} {span : Span} (h : Covers offset cs items)
    (mem : .mistake ⟨.unterminated quote, span⟩ ∈ items) :
    items.getLast? = some (.mistake ⟨.unterminated quote, span⟩) := by
  induction h with
  | last => simp at mem
  | @item _ _ _ _ _ items _ takes _ tail ih =>
    rcases List.mem_cons.1 mem with rfl | mem
    · cases takes with
      -- nothing is left behind it that could be scanned
      | unterminated => rw [tail.eq_nil]; rfl
    · have some := ih mem
      rw [List.getLast?_cons, some]
      rfl

theorem covers_source (source : String) :
    Covers (byteLength []) source.toList (scanFrom 0 source.toList) := covers_scanFrom 0 _

theorem start_lt_stop_of_mem_scanFrom {source : String} (h : item ∈ scanFrom 0 source.toList) :
    item.span.start < item.span.stop := by
  obtain ⟨text, after, ⟨before, -, start, stop⟩, takes⟩ :=
    (covers_source source).takesUp (List.nil_append _).symm h
  have := byteLength_pos takes.ne_nil
  rw [start, stop, byteLength_append]
  omega

/-- The complete list of items of a source of less than 2^32 bytes: every item takes up at least
one character, and no two overlap; they come in order, and lie within the source, from character
to character. A mistake takes up exactly what it is about, and a text that is not closed ends the
list. All that stands in front of the first item, between two items and behind the last one is
idle. -/
theorem scanning_loses_nothing {source : String} (short : source.utf8ByteSize ≤ Span.limit) :
    (∀ item ∈ scan source, Fits source item.span ∧ item.span.start < item.span.stop ∧
      ∃ text after, Reads source item.span text after ∧ item.TakesUp text after) ∧
    (scan source).Pairwise (fun i j => i.span.stop ≤ j.span.start) ∧
    (∀ gap ∈ gaps source.utf8ByteSize 0 (scan source),
      ∃ text after, Reads source gap text after ∧ Idle after text) ∧
    ∀ quote span, .mistake ⟨.unterminated quote, span⟩ ∈ scan source →
      (scan source).getLast? = some (.mistake ⟨.unterminated quote, span⟩) := by
  have covers := covers_source source
  rw [scan_of_le short]
  exact ⟨fun item hitem => ⟨fits_of_mem_scanFrom hitem, start_lt_stop_of_mem_scanFrom hitem,
      covers.takesUp (List.nil_append _).symm hitem⟩, scanFrom_ordered 0 _,
    fun gap hgap => covers.gaps (List.nil_append _).symm hgap,
    fun quote span => covers.unterminated_last⟩

/-- Blanks, a comment, half of an operator, a refused word, and a quote that is never closed. -/
theorem a_quote_behind_a_refused_word :
    let source := "a // b\n& for 'c"
    source.utf8ByteSize ≤ Span.limit ∧
      (scan source).map Item.span = [⟨0, 1⟩, ⟨7, 8⟩, ⟨9, 12⟩, ⟨13, 15⟩] ∧
      gaps 15 0 (scan source) = [⟨0, 0⟩, ⟨1, 7⟩, ⟨8, 9⟩, ⟨12, 13⟩, ⟨15, 15⟩] ∧
      ∃ text after, Reads source ⟨1, 7⟩ text after ∧ Idle after text := by
  intro source
  have short : source.utf8ByteSize ≤ Span.limit := by decide +kernel
  have size : source.utf8ByteSize = 15 := by decide +kernel
  have apart : gaps 15 0 (scan source) = [⟨0, 0⟩, ⟨1, 7⟩, ⟨8, 9⟩, ⟨12, 13⟩, ⟨15, 15⟩] := by
    decide +kernel
  obtain ⟨-, -, idle, -⟩ := scanning_loses_nothing short
  rw [size, apart] at idle
  exact ⟨short, by decide +kernel, apart, idle ⟨1, 7⟩ (by simp)⟩

end BraceScript
