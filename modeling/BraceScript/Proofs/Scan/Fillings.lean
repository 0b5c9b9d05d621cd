-- Text that means nothing may stand in front of any token. What is put in
-- begins with a filler, so that the token before it ends where it did; the
-- tokens are the same, and so is what the parser makes of them.
import BraceScript.Proofs.Grammar.Alike
import BraceScript.Proofs.Grammar.Breaks
import BraceScript.Proofs.Printing.Written
import BraceScript.Proofs.Scan.Slices

namespace BraceScript

/-! ## Putting texts in -/

/-- A text with something put in directly in front of the characters at some offsets, and at its
end. -/
def putIn (fill : Nat → List Char) (offsets : List Nat) : Nat → List Char → List Char
  | offset, [] => fill offset
  | offset, c :: cs =>
    (if offset ∈ offsets then fill offset else []) ++
      c :: putIn fill offsets (offset + c.utf8Size) cs

/-- A source with something put in directly in front of each of its tokens, and at its end. -/
def filled (source : String) (fill : Nat → String) : String :=
  let starts := (scanFrom 0 source.toList).map fun item => item.span.start
  String.ofList (putIn (fun n => (fill n).toList) starts 0 source.toList)

/-- Blanks, semicolons and comments, each of which is ended by a line break, whatever stands
behind them. Either there is nothing, or it does not begin with a comment. -/
structure Filling (cs : List Char) : Prop where
  idle : ∀ after, Idle after cs
  begins : ∀ c ∈ cs.head?, isFiller c = true

variable {fill : Nat → List Char} {offsets : List Nat} {offset : Nat} {a b x cs after : List Char}
  {c : Char}

theorem putIn_append (outside : ∀ n, offset ≤ n → n < offset + byteLength a → n ∉ offsets)
    (b : List Char) :
    putIn fill offsets offset (a ++ b) = a ++ putIn fill offsets (offset + byteLength a) b := by
  induction a generalizing offset with
  | nil => simp
  | cons c a ih =>
    have size := c.utf8Size_pos
    have here : offset ∉ offsets := outside offset (Nat.le_refl _) (by simp; omega)
    have behind : ∀ n, offset + c.utf8Size ≤ n → n < offset + c.utf8Size + byteLength a →
        n ∉ offsets := fun n le lt => outside n (by omega) (by simp; omega)
    rw [List.cons_append, putIn, if_neg here, ih behind, byteLength_cons, ← Nat.add_assoc]
    rfl

/-! ## Idle text -/

/-- A comment is one piece up to its line break. -/
theorem cut_comment {text : List Char} (inside : '\n' ∉ text)
    (stops : ∀ c ∈ after.head?, c = '\n') :
    cut '/' ('/' :: text ++ after) =
      { piece := .filler, taken := '/' :: '/' :: text, rest := after } := by
  have all : ∀ c ∈ '/' :: '/' :: text, (c != '\n') = true := by
    simp only [List.forall_mem_cons]
    refine ⟨by decide, by decide, fun c hc => bne_iff_ne.2 ?_⟩
    rintro rfl
    exact inside hc
  have ends : ∀ c ∈ after.head?, (c != '\n') = false := fun c hc => by simp [stops c hc]
  change cutComment ('/' :: '/' :: text ++ after) = _
  rw [cutComment, takeWhile_append_of_ends all ends, dropWhile_append_of_ends all ends]

/-- Idle text makes no items. -/
theorem scanFrom_idle (h : Idle after a) (offset : Nat) :
    scanFrom offset (a ++ after) = scanFrom (offset + byteLength a) after := by
  induction h generalizing offset with
  | nil => rfl
  | @filler c cs hc _ ih =>
    have filler : isFiller c = true := by simpa [isFiller, or_assoc] using hc
    have piece : cut c (cs ++ after) = ⟨.filler, [c], cs ++ after⟩ := by simp [cut, filler]
    rw [List.cons_append, scanFrom_cons, piece, ih]
    simp [Piece.items, Nat.add_assoc]
  | @comment text cs inside stops _ ih =>
    have piece := cut_comment inside stops
    rw [List.cons_append, List.cons_append, List.append_assoc, List.cons_append, scanFrom_cons]
    rw [List.cons_append] at piece
    rw [piece, ih]
    simp [Piece.items, Nat.add_assoc]

/-- Idle text that is cut off in front of a line break. -/
theorem Idle.dropWhile (h : Idle after a) : Idle after (a.dropWhile (· != '\n')) := by
  induction h with
  | nil => exact .nil
  | @filler c cs hc idle ih =>
    by_cases newline : c = '\n'
    · subst newline
      simpa using idle.filler hc
    · rwa [List.dropWhile_cons_of_pos (by simpa using newline)]
  | @comment text cs inside stops _ ih =>
    have all : ∀ c ∈ '/' :: '/' :: text, (c != '\n') = true := by
      simp only [List.forall_mem_cons]
      refine ⟨by decide, by decide, fun c hc => bne_iff_ne.2 ?_⟩
      rintro rfl
      exact inside hc
    rwa [List.dropWhile_append_of_pos all]

/-- A comment goes on to the first line break of the idle text behind it. -/
theorem Idle.comment_append {text : List Char} (inside : '\n' ∉ text) (h : Idle [] a) :
    Idle [] ('/' :: '/' :: text ++ a) := by
  have split : text ++ a = text ++ a.takeWhile (· != '\n') ++ a.dropWhile (· != '\n') := by
    rw [List.append_assoc, List.takeWhile_append_dropWhile]
  have line : '\n' ∉ text ++ a.takeWhile (· != '\n') := by
    refine List.not_mem_append inside fun mem => ?_
    simpa using List.all_eq_true.1 (List.all_takeWhile (p := (· != '\n')) (l := a)) _ mem
  have stops : ∀ c ∈ (a.dropWhile (· != '\n') ++ []).head?, c = '\n' := fun c hc => by
    rw [List.append_nil] at hc
    simpa using head?_dropWhile_eq_false hc
  have idle := Idle.comment line stops h.dropWhile
  rwa [List.cons_append, List.cons_append, ← split] at idle

/-- More idle text at the end of a text. -/
theorem Idle.onward (ha : Idle [] a) (hb : Idle [] b) : Idle [] (a ++ b) := by
  induction ha with
  | nil => exact hb
  | filler hc _ ih => exact .filler hc ih
  | @comment text cs inside stops _ ih =>
    cases cs with
    | nil =>
      rw [List.append_nil]
      exact hb.comment_append inside
    | cons d cs =>
      rw [List.append_assoc]
      exact .comment inside (by simpa using stops) ih

/-! ## Something else behind a token -/

/-- The text begins as the other one does, or with a filler, or it is empty. -/
def Follows (rest x : List Char) : Prop := ∀ d ∈ x.head?, d ∈ rest.head? ∨ isFiller d = true

theorem Follows.imp {rest : List Char} (h : Follows rest x) {p : Char → Prop}
    (first : ∀ d ∈ rest.head?, p d) (filler : ∀ d, isFiller d = true → p d) :
    ∀ d ∈ x.head?, p d := fun d hd => (h d hd).elim (first d) (filler d)

theorem isFiller_cases {p : Char → Prop} (blank : p ' ') (tab : p '\t') (feed : p '\r')
    (newline : p '\n') (semicolon : p ';') : ∀ d, isFiller d = true → p d := by
  intro d hd
  simp only [isFiller, Bool.or_eq_true, beq_iff_eq] at hd
  rcases hd with (((rfl | rfl) | rfl) | rfl) | rfl <;> assumption

theorem follows_dropWhile {p : Char → Bool} (h : Follows (cs.dropWhile p) x)
    (filler : ∀ d, isFiller d = true → p d = false) :
    (cs.takeWhile p ++ x).takeWhile p = cs.takeWhile p ∧
      (cs.takeWhile p ++ x).dropWhile p = x := by
  have all : ∀ c ∈ cs.takeWhile p, p c = true := List.all_eq_true.1 List.all_takeWhile
  have ends : ∀ d ∈ x.head?, p d = false :=
    h.imp (fun d hd => head?_dropWhile_eq_false hd) filler
  exact ⟨takeWhile_append_of_ends all ends, dropWhile_append_of_ends all ends⟩

theorem cutWord_follow (h : Follows (cutWord cs).rest x) :
    cutWord ((cutWord cs).taken ++ x) = (cutWord cs).before x := by
  obtain ⟨taken, rest⟩ := follows_dropWhile h (isFiller_cases rfl rfl rfl rfl rfl)
  simp only [cutWord, Cut.before, taken, rest]

theorem cutNumber_follow (h : Follows (cutNumber cs).rest x) :
    cutNumber ((cutNumber cs).taken ++ x) = (cutNumber cs).before x := by
  have filler : ∀ d, isFiller d = true → Number.isDigit d = false :=
    isFiller_cases rfl rfl rfl rfl rfl
  unfold cutNumber at h ⊢
  split at h
  · next rest point =>
    obtain ⟨fraction, behind⟩ := follows_dropWhile h filler
    have digits : ∀ c ∈ cs.takeWhile Number.isDigit, Number.isDigit c = true :=
      List.all_eq_true.1 List.all_takeWhile
    have ends : ∀ d ∈ ('.' :: (rest.takeWhile Number.isDigit ++ x)).head?,
        Number.isDigit d = false := by
      rintro d ⟨⟩
      rfl
    simp only [List.append_assoc, List.cons_append, takeWhile_append_of_ends digits ends,
      dropWhile_append_of_ends digits ends, fraction, behind, Cut.before]
  · next pointless =>
    obtain ⟨taken, behind⟩ := follows_dropWhile h filler
    have ends : ∀ d ∈ x.head?, d ≠ '.' := by
      refine h.imp (fun d hd point => ?_) (isFiller_cases ?_ ?_ ?_ ?_ ?_)
      · subst point
        obtain ⟨rest, split⟩ := List.head?_eq_some_iff.1 hd
        exact pointless rest split
      all_goals decide
    simp only [taken, behind]
    split
    · exact absurd rfl (ends '.' rfl)
    · rfl

/-- A text in quotes that is closed, with anything behind it. -/
theorem cutText_follow (quote : isQuote c = true) {k : Token.Kind}
    (token : (cutText c cs).piece = .token k) {t : List Char}
    (taken : (cutText c cs).taken = c :: t) : cut c (t ++ x) = (cutText c cs).before x := by
  unfold cutText at token taken ⊢
  split at token
  · next d rest closed =>
    have lacks : c ∉ cs.takeWhile (· != c) := fun mem => by
      simpa using List.all_eq_true.1 (List.all_takeWhile (p := (· != c)) (l := cs)) c mem
    simp only [closed, List.cons_append, List.cons.injEq, true_and] at taken ⊢
    rw [← taken, cut_text quote lacks]
    rfl
  · cases token

/-! ## Signs -/

theorem Sign.chars_injective {s s' : Sign} (h : s.chars = s'.chars) : s = s' := by
  have distinct : ∀ s ∈ Sign.all, ∀ s' ∈ Sign.all, s.chars = s'.chars → s = s' := by decide
  exact distinct s s.mem_all s' s'.mem_all h

theorem Sign.not_isFiller_of_mem (s : Sign) : ∀ d ∈ s.chars, isFiller d = false := by
  have all : ∀ s ∈ Sign.all, s.chars.all (!isFiller ·) = true := by decide
  intro d hd
  simpa using List.all_eq_true.1 (all s s.mem_all) d hd

/-- If one sign begins another one, then so does one with a single character more. -/
theorem Sign.exists_next {s s' : Sign} (begins : s.chars <+: s'.chars)
    (shorter : s.chars.length < s'.chars.length) :
    ∃ next : Sign, next.chars = s'.chars.take (s.chars.length + 1) := by
  have each : ∀ s ∈ Sign.all, ∀ s' ∈ Sign.all, s.chars <+: s'.chars →
      s.chars.length < s'.chars.length →
      ∃ next ∈ Sign.all, next.chars = s'.chars.take (s.chars.length + 1) := by decide +kernel
  obtain ⟨next, -, chars⟩ := each s s.mem_all s' s'.mem_all begins shorter
  exact ⟨next, chars⟩

/-- The sign that is cut off is the longest one that begins the text. -/
theorem longest_of_find? {s : Sign} {text : List Char}
    (found : (Sign.all.find? fun s => s.chars.isPrefixOf text) = some s) :
    s.chars <+: text ∧ ∀ s' : Sign, s'.chars <+: text → s'.chars.length ≤ s.chars.length := by
  have sorted : Sign.all.Pairwise fun s s' => s'.chars.length ≤ s.chars.length := by decide
  obtain ⟨begins, before, behind, split, earlier⟩ := List.find?_eq_some_iff_append.1 found
  refine ⟨List.isPrefixOf_iff_prefix.1 begins, fun s' begins' => ?_⟩
  rw [split] at sorted
  have member := s'.mem_all
  rw [split] at member
  rcases List.mem_append.1 member with first | last
  · simpa [List.isPrefixOf_iff_prefix.2 begins'] using earlier s' first
  · rcases List.mem_cons.1 last with rfl | last
    · exact Nat.le_refl _
    · exact List.rel_of_pairwise_cons (List.pairwise_append.1 sorted).2.1 last

theorem find?_of_longest {s : Sign} {text : List Char} (begins : s.chars <+: text)
    (longest : ∀ s' : Sign, s'.chars <+: text → s'.chars.length ≤ s.chars.length) :
    (Sign.all.find? fun s => s.chars.isPrefixOf text) = some s := by
  cases found : Sign.all.find? fun s => s.chars.isPrefixOf text with
  | none =>
    have fails := List.find?_eq_none.1 found s s.mem_all
    exact absurd (List.isPrefixOf_iff_prefix.2 begins) fails
  | some s' =>
    obtain ⟨begins', longest'⟩ := longest_of_find? found
    have same : s'.chars = s.chars :=
      (List.prefix_of_prefix_length_le begins' begins (longest s' begins')).eq_of_length
        (Nat.le_antisymm (longest s' begins') (longest' s begins))
    rw [Sign.chars_injective same]

/-- The longest sign stays the longest one. A longer one would begin with a sign of just one
more character, which stands in the old text, too, or is a filler. -/
theorem longest_follow {s : Sign} {rest : List Char} (h : Follows rest x)
    (longest : ∀ s' : Sign, s'.chars <+: s.chars ++ rest → s'.chars.length ≤ s.chars.length) :
    ∀ s' : Sign, s'.chars <+: s.chars ++ x → s'.chars.length ≤ s.chars.length := by
  intro s' begins
  refine Nat.le_of_not_lt fun longer => ?_
  have part : s.chars <+: s'.chars :=
    List.prefix_of_prefix_length_le (List.prefix_append _ _) begins (Nat.le_of_lt longer)
  obtain ⟨next, chars⟩ := Sign.exists_next part longer
  obtain ⟨_ | ⟨d, more⟩, split⟩ := part
  · simp [← split] at longer
  · rw [← split, List.take_append, List.take_of_length_le (by omega)] at chars
    simp only [Nat.add_sub_cancel_left, List.take_succ_cons, List.take_zero] at chars
    rw [← split, List.prefix_append_right_inj] at begins
    obtain ⟨x, rfl⟩ := begins
    rcases h d rfl with old | filler
    · obtain ⟨rest, rfl⟩ := List.head?_eq_some_iff.1 old
      have fits : next.chars <+: s.chars ++ d :: rest := ⟨rest, by simp [chars]⟩
      have short := longest next fits
      rw [chars, List.length_append, List.length_singleton] at short
      omega
    · simpa [filler] using next.not_isFiller_of_mem d (by simp [chars])

theorem cutSign_follow {k : Token.Kind} (token : (cutSign c cs).piece = .token k) {t : List Char}
    (taken : (cutSign c cs).taken = c :: t) (h : Follows (cutSign c cs).rest x) :
    cutSign c (t ++ x) = (cutSign c cs).before x := by
  have whole := cutSign_taken_append_rest c cs
  unfold cutSign at token taken h whole ⊢
  cases found : Sign.all.find? fun s => s.chars.isPrefixOf (c :: cs) with
  | none => rw [found] at token; cases token
  | some s =>
    simp only [found] at taken h whole ⊢
    obtain ⟨-, longest⟩ := longest_of_find? found
    rw [← whole] at longest
    have front : c :: (t ++ x) = s.chars ++ x := by rw [taken, List.cons_append]
    have same := find?_of_longest (List.prefix_append s.chars x) (longest_follow h longest)
    rw [← front] at same
    simp only [same]
    rw [front, List.drop_left]
    rfl

/-! ## Whole texts -/

/-- A token that is cut off is cut off with something else behind it, too. -/
theorem cut_follow {k : Token.Kind} (token : (cut c cs).piece = .token k) {t : List Char}
    (taken : (cut c cs).taken = c :: t) (h : Follows (cut c cs).rest x) :
    cut c (t ++ x) = (cut c cs).before x := by
  have whole := cut_taken_append_rest c cs
  rw [taken, List.cons_append, List.cons.injEq] at whole
  replace whole := whole.2
  by_cases filler : isFiller c = true
  · simp [cut, filler] at token
  by_cases digit : Number.isDigit c = true
  · have same (cs : List Char) : cut c cs = cutNumber (c :: cs) := by simp [cut, filler, digit]
    rw [same] at taken h ⊢
    rw [same, ← cutNumber_follow h, taken, List.cons_append]
  by_cases word : beginsWord c = true
  · have same (cs : List Char) : cut c cs = cutWord (c :: cs) := by
      simp [cut, filler, digit, word]
    rw [same] at taken h ⊢
    rw [same, ← cutWord_follow h, taken, List.cons_append]
  by_cases quote : isQuote c = true
  · rw [cut_of_isQuote quote cs] at token taken ⊢
    exact cutText_follow quote token taken
  have single (slashes : (c == '/' && (t ++ x).head? == some '/') = true) :
      (c == '/' && cs.head? == some '/') = true := by
    simp only [Bool.and_eq_true, beq_iff_eq] at slashes ⊢
    refine ⟨slashes.1, ?_⟩
    cases t with
    | cons d t =>
      rw [← whole]
      exact slashes.2
    | nil =>
      rcases h _ slashes.2 with old | filler
      · rw [← whole]
        exact old
      · cases filler
  have comment : (c == '/' && cs.head? == some '/') = false := by
    refine Bool.eq_false_iff.2 fun slashes => ?_
    simp [cut, filler, digit, word, quote, slashes, cutComment] at token
  have comment' : (c == '/' && (t ++ x).head? == some '/') = false :=
    Bool.eq_false_iff.2 fun slashes => by simp [single slashes] at comment
  have sign {ys : List Char} (slash : (c == '/' && ys.head? == some '/') = false) :
      cut c ys = cutSign c ys := by
    rw [cut, if_neg filler, if_neg digit, if_neg word, if_neg quote, if_neg (by simp [slash])]
  rw [sign comment] at token taken h ⊢
  rw [sign comment']
  exact cutSign_follow token taken h

/-- What begins the filled text is a filler, or what begins the old one. -/
theorem follows_putIn (fillings : ∀ n, Filling (fill n)) (offsets : List Nat) (offset : Nat)
    (cs : List Char) :
    Follows cs (putIn fill offsets offset cs) := by
  cases cs with
  | nil => exact fun d hd => .inr ((fillings offset).begins d hd)
  | cons c cs =>
    intro d hd
    rw [putIn] at hd
    by_cases here : offset ∈ offsets
    · rw [if_pos here] at hd
      cases put : fill offset with
      | nil =>
        rw [put] at hd
        exact .inl hd
      | cons e es =>
        rw [put] at hd
        exact .inr ((fillings offset).begins d (put ▸ hd))
    · rw [if_neg here] at hd
      exact .inl hd

/-- From here on, the offsets are those at which the items of a text begin. -/
def AreStarts (offsets : List Nat) (offset : Nat) (cs : List Char) : Prop :=
  ∀ n, offset ≤ n → (n ∈ offsets ↔ ∃ item ∈ scanFrom offset cs, item.span.start = n)

namespace AreStarts

variable (starts : AreStarts offsets offset (c :: cs))
include starts

/-- At most one item begins in the first piece, and it does so at its front. -/
theorem first {n : Nat} (le : offset ≤ n) (lt : n < offset + byteLength (cut c cs).taken)
    (mem : n ∈ offsets) : n = offset ∧ ∃ span, (cut c cs).piece.items span ≠ [] := by
  obtain ⟨item, hitem, rfl⟩ := (starts n le).1 mem
  rw [scanFrom_cons] at hitem
  rcases List.mem_append.1 hitem with one | more
  · rw [Piece.span_of_mem_items one]
    exact ⟨rfl, _, List.ne_nil_of_mem one⟩
  · exact absurd (start_of_mem_scanFrom more) (Nat.not_le.2 lt)

theorem rest : AreStarts offsets (offset + byteLength (cut c cs).taken) (cut c cs).rest := by
  intro n le
  rw [starts n (by omega), scanFrom_cons]
  constructor
  · rintro ⟨item, hitem, rfl⟩
    rcases List.mem_append.1 hitem with one | more
    · have size := byteLength_pos (cut_taken_ne_nil c cs)
      rw [Piece.span_of_mem_items one] at le
      dsimp only at le
      omega
    · exact ⟨item, more, rfl⟩
  · rintro ⟨item, more, rfl⟩
    exact ⟨item, List.mem_append_right _ more, rfl⟩

theorem not_mem_of_filler (filler : (cut c cs).piece = .filler) {n : Nat} (le : offset ≤ n)
    (lt : n < offset + byteLength (cut c cs).taken) : n ∉ offsets := by
  intro mem
  obtain ⟨-, span, some⟩ := starts.first le lt mem
  exact some (by rw [filler]; rfl)

end AreStarts

/-- A comment ends where the text behind it does not begin with anything else. -/
theorem Idle.imp (h : Idle after a)
    (ends : (∀ c ∈ after.head?, c = '\n') → ∀ c ∈ x.head?, c = '\n') : Idle x a := by
  induction h with
  | nil => exact .nil
  | filler hc _ ih => exact .filler hc ih
  | @comment text cs inside stops _ ih =>
    cases cs with
    | nil => exact .comment inside (ends stops) ih
    | cons d cs => exact .comment inside stops ih

/-- The piece of idle text in front stays idle. -/
theorem scanFrom_filler (fillings : ∀ n, Filling (fill n))
    (starts : AreStarts offsets offset (c :: cs)) (filler : (cut c cs).piece = .filler)
    (offset' : Nat) :
    scanFrom offset' (putIn fill offsets offset (c :: cs)) =
      scanFrom (offset' + byteLength (cut c cs).taken)
        (putIn fill offsets (offset + byteLength (cut c cs).taken) (cut c cs).rest) := by
  have idle : Idle (cut c cs).rest (cut c cs).taken := by
    rcases sound_cut c cs with ⟨-, idle⟩ | item
    · exact idle
    · obtain ⟨item, one, -⟩ := item ⟨0, 0⟩
      rw [filler] at one
      cases one
  have split : putIn fill offsets offset (c :: cs) = (cut c cs).taken ++
      putIn fill offsets (offset + byteLength (cut c cs).taken) (cut c cs).rest := by
    rw [← putIn_append fun n le lt => starts.not_mem_of_filler filler le lt,
      cut_taken_append_rest]
  have more := starts.rest
  rw [split]
  generalize (cut c cs).rest = rest at *
  generalize (cut c cs).taken = taken at *
  cases rest with
  | nil =>
    have filling := (fillings (offset + byteLength taken)).idle []
    have none (n : Nat) {text : List Char} (h : Idle [] text) : scanFrom n text = [] := by
      have := scanFrom_idle h n
      rwa [List.append_nil, scanFrom] at this
    rw [putIn, none _ (idle.onward filling), none _ filling]
  | cons d rest =>
    refine scanFrom_idle (idle.imp fun newline => ?_) offset'
    obtain rfl : d = '\n' := newline d rfl
    have piece : (cut '\n' rest).piece = .filler := rfl
    have size := byteLength_pos (cut_taken_ne_nil '\n' rest)
    have outside := more.not_mem_of_filler piece (Nat.le_refl _) (Nat.lt_add_of_pos_right size)
    rintro c hc
    rw [putIn, if_neg outside] at hc
    exact (Option.some.inj hc).symm

/-- A token stays the same behind what is put in. -/
theorem scanFrom_token (fillings : ∀ n, Filling (fill n))
    (starts : AreStarts offsets offset (c :: cs)) {k : Token.Kind}
    (token : (cut c cs).piece = .token k) (offset' : Nat) :
    ∃ n, scanFrom offset' (putIn fill offsets offset (c :: cs)) =
      .token ⟨k, ⟨n, n + byteLength (cut c cs).taken⟩⟩ ::
        scanFrom (n + byteLength (cut c cs).taken)
          (putIn fill offsets (offset + byteLength (cut c cs).taken) (cut c cs).rest) := by
  have whole := cut_taken_append_rest c cs
  obtain ⟨d, t, taken⟩ := List.exists_cons_of_ne_nil (cut_taken_ne_nil c cs)
  obtain ⟨rfl, whole⟩ : c = d ∧ t ++ (cut c cs).rest = cs := by
    rw [taken, List.cons_append] at whole
    exact (List.cons.inj whole).imp_left Eq.symm
  have first : Item.token ⟨k, ⟨offset, offset + byteLength (cut c cs).taken⟩⟩ ∈
      scanFrom offset (c :: cs) := by
    rw [scanFrom_cons, token]
    exact List.mem_append_left _ (List.mem_singleton_self _)
  have here : offset ∈ offsets := (starts offset (Nat.le_refl _)).2 ⟨_, first, rfl⟩
  have size : byteLength (cut c cs).taken = c.utf8Size + byteLength t := by
    rw [taken, byteLength_cons]
  have outside : ∀ n, offset + c.utf8Size ≤ n → n < offset + c.utf8Size + byteLength t →
      n ∉ offsets := fun n le lt mem => by
    have := c.utf8Size_pos
    have := (starts.first (by omega) (by omega) mem).1
    omega
  have split : putIn fill offsets offset (c :: cs) = fill offset ++ c :: (t ++
      putIn fill offsets (offset + byteLength (cut c cs).taken) (cut c cs).rest) := by
    rw [putIn, if_pos here, size, ← Nat.add_assoc, ← putIn_append outside, whole]
  have follows := follows_putIn fillings offsets (offset + byteLength (cut c cs).taken)
    (cut c cs).rest
  refine ⟨offset' + byteLength (fill offset), ?_⟩
  rw [split, scanFrom_idle ((fillings offset).idle _), scanFrom_cons,
    cut_follow token taken follows]
  simp only [Cut.before, token, Piece.items, List.singleton_append]

/-- The items of the filled text are those of the old one, up to their places. -/
theorem scanFrom_putIn (fillings : ∀ n, Filling (fill n)) (starts : AreStarts offsets offset cs)
    (clean : ∀ e, .mistake e ∉ scanFrom offset cs) (offset' : Nat) :
    (scanFrom offset' (putIn fill offsets offset cs)).map (Item.move fun _ => 0) =
      (scanFrom offset cs).map (Item.move fun _ => 0) := by
  induction hn : cs.length using Nat.strongRecOn generalizing offset cs offset' with
  | ind _ ih =>
    subst hn
    cases cs with
    | nil =>
      have none := scanFrom_idle ((fillings offset).idle []) offset'
      rw [List.append_nil] at none
      rw [putIn, none]
      simp [scanFrom]
    | cons c cs =>
      have shorter := cut_rest_length_lt c cs
      have clean' : ∀ e, .mistake e ∉
          scanFrom (offset + byteLength (cut c cs).taken) (cut c cs).rest := fun e he =>
        clean e (by rw [scanFrom_cons]; exact List.mem_append_right _ he)
      have behind := fun n => ih _ shorter starts.rest clean' n rfl
      cases piece : (cut c cs).piece with
      | mistake cause =>
        rw [scanFrom_cons, piece] at clean
        exact absurd (List.mem_append_left _ (List.mem_singleton_self _)) (clean _)
      | filler =>
        rw [scanFrom_filler fillings starts piece, behind, scanFrom_cons offset, piece]
        rfl
      | token k =>
        obtain ⟨n, items⟩ := scanFrom_token fillings starts piece offset'
        rw [items, List.map_cons, behind, scanFrom_cons offset, piece]
        rfl

/-- Blanks, semicolons and closed comments may stand in front of any token, and at the end: with
any of them put in, and whatever stands between the tokens already, a source has tokens of the
same kinds, and is the same program up to places or none for the same cause. -/
theorem fillings_mean_nothing {source : String} {ts : List Token} (clean : tokens source = .ok ts)
    (fill : Nat → String) (fillings : ∀ n, Filling (fill n).toList) :
    (∃ ts', tokens (filled source fill) = .ok ts' ∧ ts'.map Token.kind = ts.map Token.kind) ∧
    SameProgram (parse source) (parse (filled source fill)) := by
  obtain ⟨us, found, rfl⟩ := tokensAt_of_tokens clean
  have starts : AreStarts ((scanFrom 0 source.toList).map (·.span.start)) 0 source.toList :=
    fun n _ => List.mem_map
  have bare := scanFrom_putIn fillings starts (not_mistake_mem clean) 0
  have items := (congrArg (List.map (Item.move fun _ => 0)) found).trans (List.map_map ..)
  have moved : (us.map (Token.move fun _ => 0)).map Item.token = _ :=
    (List.map_map ..).trans (bare.trans items).symm
  obtain ⟨vs, items', moved⟩ := tokens_of_move moved
  have found' : TokensAt (filled source fill) vs := by
    rw [TokensAt, filled, String.toList_ofList, items']
  have kinds : vs.map Token.kind = us.map Token.kind := by
    have := congrArg (List.map Token.kind) moved
    rw [map_kind_move, map_kind_move] at this
    exact this.symm
  have same : (vs.map (Token.move Span.hold)).map Token.kind =
      (us.map (Token.move Span.hold)).map Token.kind := by
    rw [map_kind_move, map_kind_move, kinds]
  refine ⟨⟨_, found'.tokens_eq, same⟩, ?_⟩
  rw [parse, parse, untilMistake_of_tokens clean, untilMistake_of_tokens found'.tokens_eq]
  exact sameProgram_parseTokens same.symm .complete

/-- Fillings in front of all tokens of an assignment without a blank, and behind its comment. -/
theorem fillings_in_an_assignment :
    let fill (n : Nat) : String := if n = 3 then ";// = \n\t" else " "
    let ts : List Token := [⟨.name "a", ⟨0, 1⟩⟩, ⟨.sign .assign, ⟨1, 2⟩⟩, ⟨.number 1, ⟨2, 3⟩⟩,
      ⟨.sign .eqEqEq, ⟨3, 6⟩⟩, ⟨.name "b", ⟨6, 7⟩⟩]
    tokens "a=1===b//" = .ok ts ∧ (∀ n, Filling (fill n).toList) ∧
      filled "a=1===b//" fill = " a = 1;// = \n\t=== b// " ∧
      SameProgram (parse "a=1===b//") (parse (filled "a=1===b//" fill)) := by
  intro fill ts
  have clean : tokens "a=1===b//" = .ok ts := tokens_eq_ok_iff.2 (by decide +kernel)
  have fillings : ∀ n, Filling (fill n).toList := by
    intro n
    by_cases three : n = 3
    · have text : (fill n).toList = ';' :: ('/' :: '/' :: [' ', '=', ' '] ++ ['\n', '\t']) := by
        simp only [fill, if_pos three]
        rfl
      have line : ∀ after c, c ∈ (['\n', '\t'] ++ after).head? → c = '\n' := by
        rintro after c ⟨⟩
        rfl
      rw [text]
      exact ⟨fun after => .filler (by decide) (.comment (by decide) (line after)
        (.filler (by decide) (.filler (by decide) .nil))), by rintro c ⟨⟩; decide⟩
    · have text : (fill n).toList = [' '] := by
        simp only [fill, if_neg three]
        rfl
      rw [text]
      exact ⟨fun after => .filler (by decide) .nil, by rintro c ⟨⟩; decide⟩
  exact ⟨clean, fillings, by decide +kernel, (fillings_mean_nothing clean fill fillings).2⟩

end BraceScript
