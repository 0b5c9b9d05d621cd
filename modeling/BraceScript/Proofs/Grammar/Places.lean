-- The places of a text: its tokens and mistakes, the nodes of its tree, and
-- its end. Each of them is a stretch of whole characters of the text, unless
-- the text is longer than a span can tell.
import BraceScript.Proofs.Grammar.Parse
import BraceScript.Proofs.Nodes
import BraceScript.Proofs.Scan

namespace BraceScript

open Grammar

/-! ## Stretches of whole characters -/

/-- A character of the text begins at this offset, or the text ends there. -/
def IsBoundary (source : String) (offset : Nat) : Prop :=
  ∃ before after, source.toList = before ++ after ∧ byteLength before = offset

/-- The span is a stretch of whole characters of the text. -/
structure Fits (source : String) (s : Span) : Prop where
  le : s.start ≤ s.stop
  inside : s.stop ≤ source.utf8ByteSize
  start : IsBoundary source s.start
  stop : IsBoundary source s.stop

theorem IsBoundary.le {source : String} {offset : Nat} (h : IsBoundary source offset) :
    offset ≤ source.utf8ByteSize := by
  obtain ⟨before, after, htext, rfl⟩ := h
  rw [← byteLength_toList, htext, byteLength_append]
  omega

theorem isBoundary_end (source : String) : IsBoundary source source.utf8ByteSize :=
  ⟨source.toList, [], by simp, byteLength_toList source⟩

/-! ## Tokens and mistakes -/

/-- Tokens and mistakes are found in stretches of the text. -/
theorem fits_of_mem_scanFrom {source : String} {item : Item}
    (h : item ∈ scanFrom 0 source.toList) : Fits source item.span := by
  obtain ⟨before, piece, after, htext, hspan⟩ := span_of_mem_scanFrom h
  rw [Nat.zero_add, Nat.zero_add] at hspan
  have start : IsBoundary source item.span.start := ⟨before, piece ++ after, htext, by rw [hspan]⟩
  have stop : IsBoundary source item.span.stop :=
    ⟨before ++ piece, after, by simpa using htext, by rw [hspan]⟩
  refine ⟨?_, stop.le, start, stop⟩
  rw [hspan, byteLength_append]
  exact Nat.le_add_right _ _

/-- If the text is short enough, their spans are these stretches. -/
theorem fits_of_mem_scan {source : String} {item : Item}
    (short : source.utf8ByteSize ≤ Span.limit) (h : item ∈ scan source) : Fits source item.span :=
  fits_of_mem_scanFrom (scan_of_le short ▸ h)

theorem mem_of_untilMistake {items : List Item} {t : Token}
    (h : t ∈ (untilMistake items).1) : .token t ∈ items := by
  induction items with
  | nil => simp [untilMistake] at h
  | cons item items ih =>
    cases item with
    | token u =>
      simp only [untilMistake, List.mem_cons] at h
      rcases h with rfl | h
      · simp
      · exact List.mem_cons_of_mem _ (ih h)
    | mistake e => simp [untilMistake] at h

theorem mistake_mem_of_untilMistake {items : List Item} {e : LexicalError}
    (h : (untilMistake items).2 = some e) : .mistake e ∈ items := by
  induction items with
  | nil => simp [untilMistake] at h
  | cons item items ih =>
    cases item with
    | token u => exact List.mem_cons_of_mem _ (ih h)
    | mistake e' =>
      simp only [untilMistake, Option.some.injEq] at h
      simp [h]

/-! ## Nodes -/

/-- The span begins with one of the tokens and ends with one of them. -/
structure Spans (ts : List Token) (s : Span) : Prop where
  start : ∃ t ∈ ts, s.start = t.span.start
  stop : ∃ t ∈ ts, s.stop = t.span.stop
  le : s.start ≤ s.stop

variable {ts us : List Token} {s s' : Span}

theorem Spans.mono (h : Spans ts s) (sub : ∀ t ∈ ts, t ∈ us) : Spans us s := by
  obtain ⟨⟨t, ht, hstart⟩, ⟨t', ht', hstop⟩, le⟩ := h
  exact ⟨⟨t, sub t ht, hstart⟩, ⟨t', sub t' ht', hstop⟩, le⟩

theorem Spans.merge (h : Spans ts s) (h' : Spans ts s') : Spans ts (s.merge s') := by
  refine ⟨?_, ?_, ?_⟩
  · unfold Span.merge
    rcases Nat.le_total s.start s'.start with hle | hle
    · simpa [Nat.min_eq_left hle] using h.start
    · simpa [Nat.min_eq_right hle] using h'.start
  · unfold Span.merge
    rcases Nat.le_total s.stop s'.stop with hle | hle
    · simpa [Nat.max_eq_right hle] using h'.stop
    · simpa [Nat.max_eq_left hle] using h.stop
  · have := h.le
    simp only [Span.merge]
    omega

theorem lastStop_mem (stop : Nat) (ts : List Token) :
    lastStop stop ts = stop ∨ ∃ t ∈ ts, lastStop stop ts = t.span.stop := by
  induction ts generalizing stop with
  | nil => exact Or.inl rfl
  | cons t ts ih =>
    rw [lastStop_cons]
    rcases ih t.span.stop with h | ⟨t', ht', h⟩
    · exact Or.inr ⟨t, by simp, h⟩
    · exact Or.inr ⟨t', by simp [ht'], h⟩

theorem spans_cover (ordered : ∀ t ∈ ts, t.span.start ≤ t.span.stop) (some : ts ≠ []) :
    Spans ts (cover ts) := by
  cases ts with
  | nil => exact absurd rfl some
  | cons t ts =>
    refine ⟨⟨t, by simp, rfl⟩, ?_, ?_⟩
    · rcases Nat.le_total (lastStop t.span.stop ts) t.span.stop with hle | hle
      · exact ⟨t, by simp, by simp [cover, Nat.max_eq_right hle]⟩
      · simp only [cover, Nat.max_eq_left hle]
        rcases lastStop_mem t.span.stop ts with h | ⟨t', ht', h⟩
        · exact ⟨t, by simp, h⟩
        · exact ⟨t', by simp [ht'], h⟩
    · have := ordered t (by simp)
      simp only [cover]
      omega

/-- The node stands in the tree of the phrase. -/
def Grammar.Phrase.Has (n : Node) : Phrase → Prop
  | .expr e | .unary e => n.Within (.expr e)
  | .primary form | .valueForm form => ∃ q ∈ form.parts, n.Within q
  | .items es | .list es => ∃ e ∈ es, n.Within (.expr e)

theorem Node.within_iff {n p : Node} : n.Within p ↔ n = p ∨ ∃ q ∈ p.parts, n.Within q := by
  constructor
  · intro h
    cases h with
    | self => exact Or.inl rfl
    | under h hq => exact Or.inr ⟨_, hq, h⟩
  · rintro (rfl | ⟨q, hq, h⟩)
    · exact .self
    · exact .under h hq

theorem Node.within_expr_iff {n : Node} {span : Span} {form : ExprForm} :
    n.Within (.expr (.at span form)) ↔
      n = .expr (.at span form) ∨ ∃ q ∈ form.parts, n.Within q :=
  Node.within_iff

theorem parts_of_operandForm? {k : Keyword} {form : Expr → ExprForm} {e : Expr}
    (h : operandForm? k = some form) : (form e).parts = [.expr e] := by
  cases k <;> cases h <;> rfl

theorem parts_of_arrayForm? {k : Keyword} {s : String} {form : String → Expr → ExprForm}
    {e : Expr} (h : arrayForm? k = some form) : (form s e).parts = [.expr e] := by
  cases k <;> cases h <;> rfl

variable {longest inFunction : Bool} {next : Option Token.Kind}

/-- The nodes of an expression lie on its tokens, which are some of all tokens. -/
theorem Grammar.DerivesExpr.spans {all : List Token} {phrase : Phrase} {n : Node}
    (ordered : ∀ t ∈ all, t.span.start ≤ t.span.stop)
    (h : DerivesExpr longest next ts phrase) (sub : ∀ t ∈ ts, t ∈ all) (hn : phrase.Has n) :
    Spans all n.span := by
  induction h generalizing n with
  | operand _ ih => exact ih sub hn
  | @operation next ls rs l r k p op _ _ _ ihl ihr =>
    have hl : ∀ {n : Node}, n.Within (.expr l) → Spans all n.span :=
      ihl fun t ht => sub t (by simp [ht])
    have hr : ∀ {n : Node}, n.Within (.expr r) → Spans all n.span :=
      ihr fun t ht => sub t (by simp [ht])
    rcases Node.within_expr_iff.1 hn with rfl | ⟨q, hq, hn⟩
    · exact (hl .self).merge (hr .self)
    · simp only [ExprForm.parts, List.mem_cons, List.not_mem_nil, or_false] at hq
      rcases hq with rfl | rfl
      · exact hl hn
      · exact hr hn
  | @operator next ts e k p op _ _ ih =>
    have he : ∀ {n : Node}, n.Within (.expr e) → Spans all n.span :=
      ih fun t ht => sub t (by simp [ht])
    have sign : (⟨k, p⟩ : Token) ∈ all := sub _ (by simp)
    rcases Node.within_expr_iff.1 hn with rfl | ⟨q, hq, hn⟩
    · exact Spans.merge ⟨⟨_, sign, rfl⟩, ⟨_, sign, rfl⟩, ordered _ sign⟩ (he .self)
    · simp only [ExprForm.parts, List.mem_singleton] at hq
      subst hq
      exact he hn
  | primary h ih =>
    rcases Node.within_expr_iff.1 hn with rfl | hn
    · obtain ⟨t, us, rfl, -⟩ := h.begins (by simp)
      exact (spans_cover (fun t ht => ordered t (sub t ht)) (by simp)).mono sub
    · exact ih sub hn
  | number | text | boolean | void | name | size => simp [Phrase.Has, ExprForm.parts] at hn
  | call _ ih | array _ ih =>
    obtain ⟨q, hq, hn⟩ := hn
    obtain ⟨e, he, rfl⟩ := List.mem_map.1 hq
    exact ih (fun t ht => sub t (by simp [ht])) ⟨e, he, hn⟩
  | index _ ih =>
    refine ih (fun t ht => sub t (by simp [ht])) ?_
    simpa [Phrase.Has, ExprForm.parts] using hn
  | @parens next ts e p q _ ih =>
    refine ih (fun t ht => sub t (by simp [ht])) ?_
    exact Node.within_iff.2 (Or.inr hn)
  | valueForm _ ih => exact ih sub hn
  | operandForm hk _ _ ih =>
    refine ih (fun t ht => sub t (by simp [ht])) ?_
    simpa [Phrase.Has, parts_of_operandForm? hk] using hn
  | arrayForm hk _ _ ih =>
    refine ih (fun t ht => sub t (by simp [ht])) ?_
    simpa [Phrase.Has, parts_of_arrayForm? hk] using hn
  | lastItem _ ih =>
    apply ih sub
    simpa [Phrase.Has] using hn
  | moreItems _ _ ihe ihes =>
    obtain ⟨e', he', hn⟩ := hn
    rcases List.mem_cons.1 he' with rfl | he'
    · exact ihe (fun t ht => sub t (by simp [ht])) hn
    · exact ihes (fun t ht => sub t (by simp [ht])) ⟨e', he', hn⟩
  | noItems => simp [Phrase.Has] at hn
  | someItems _ ih => exact ih sub hn

/-- The node stands in the trees of the phrase. -/
def Grammar.Sentence.Has (n : Node) : Sentence → Prop
  | .form f => ∃ q ∈ f.parts, n.Within q
  | .stmt s => n.Within (.stmt s)
  | .stmts ss | .block ss => ∃ s ∈ ss, n.Within (.stmt s)

/-- The nodes of statements lie on their tokens, which are some of all tokens. -/
theorem Grammar.DerivesStmt.spans {all : List Token} {sentence : Sentence} {n : Node}
    (ordered : ∀ t ∈ all, t.span.start ≤ t.span.stop)
    (h : DerivesStmt longest inFunction next ts sentence) (sub : ∀ t ∈ ts, t ∈ all)
    (hn : sentence.Has n) : Spans all n.span := by
  induction h generalizing n with
  | declare he | print he | assign he | returnValue _ he =>
    refine he.spans ordered (fun t ht => sub t (by simp [ht])) ?_
    simpa [Sentence.Has, StmtForm.parts, Phrase.Has] using hn
  | branch hc _ ih =>
    obtain ⟨q, hq, hn⟩ := hn
    simp only [StmtForm.parts, Option.getD_none, List.append_nil, List.mem_cons,
      List.mem_map] at hq
    rcases hq with rfl | ⟨s, hs, rfl⟩
    · exact hc.spans ordered (fun t ht => sub t (by simp [ht])) hn
    · exact ih (fun t ht => sub t (by simp [ht])) ⟨s, hs, hn⟩
  | branchElse hc _ _ ih ih' =>
    obtain ⟨q, hq, hn⟩ := hn
    simp only [StmtForm.parts, Option.getD_some, List.mem_cons, List.mem_map,
      List.mem_append] at hq
    rcases hq with rfl | ⟨s, hs | hs, rfl⟩
    · exact hc.spans ordered (fun t ht => sub t (by simp [ht])) hn
    · exact ih (fun t ht => sub t (by simp [ht])) ⟨s, hs, hn⟩
    · exact ih' (fun t ht => sub t (by simp [ht])) ⟨s, hs, hn⟩
  | loop ha hb _ ih =>
    obtain ⟨q, hq, hn⟩ := hn
    simp only [StmtForm.parts, List.mem_cons, List.mem_map] at hq
    rcases hq with rfl | rfl | ⟨s, hs, rfl⟩
    · exact ha.spans ordered (fun t ht => sub t (by simp [ht])) hn
    · exact hb.spans ordered (fun t ht => sub t (by simp [ht])) hn
    · exact ih (fun t ht => sub t (by simp [ht])) ⟨s, hs, hn⟩
  | «while» hc _ ih =>
    obtain ⟨q, hq, hn⟩ := hn
    simp only [StmtForm.parts, List.mem_cons, List.mem_map] at hq
    rcases hq with rfl | ⟨s, hs, rfl⟩
    · exact hc.spans ordered (fun t ht => sub t (by simp [ht])) hn
    · exact ih (fun t ht => sub t (by simp [ht])) ⟨s, hs, hn⟩
  | function _ _ ih | async _ ih =>
    obtain ⟨q, hq, hn⟩ := hn
    obtain ⟨s, hs, rfl⟩ := List.mem_map.1 hq
    exact ih (fun t ht => sub t (by simp [ht])) ⟨s, hs, hn⟩
  | returnNothing | deleteVariable | deleteFunction | connect =>
    simp [Sentence.Has, StmtForm.parts] at hn
  | call h =>
    exact (DerivesExpr.primary (@DerivesExpr.call _ none _ _ _ _ _ _ h)).spans ordered sub
      (by simpa [Sentence.Has, StmtForm.parts, Phrase.Has] using hn)
  | index h =>
    exact (DerivesExpr.primary (@DerivesExpr.index _ none _ _ _ _ _ _ h)).spans ordered sub
      (by simpa [Sentence.Has, StmtForm.parts, Phrase.Has] using hn)
  | valueForm h =>
    exact (DerivesExpr.primary (.valueForm h)).spans ordered sub
      (by simpa [Sentence.Has, StmtForm.parts, Phrase.Has] using hn)
  | stmt h ih =>
    rcases Node.within_iff.1 hn with rfl | hn
    · obtain ⟨t, us, rfl, -⟩ := h.begins_form
      exact (spans_cover (fun t ht => ordered t (sub t ht)) (by simp)).mono sub
    · exact ih sub hn
  | nil => simp [Sentence.Has] at hn
  | cons _ _ ihs ihss =>
    obtain ⟨s, hs, hn⟩ := hn
    rcases List.mem_cons.1 hs with rfl | hs
    · exact ihs (fun t ht => sub t (by simp [ht])) hn
    · exact ihss (fun t ht => sub t (by simp [ht])) ⟨s, hs, hn⟩
  | block _ ih => exact ih (fun t ht => sub t (by simp [ht])) hn

/-- The node stands in the tree of the text. -/
def Node.WrittenIn (n : Node) (source : String) : Prop :=
  ∃ ss, parse source = .ok ss ∧ ∃ s ∈ ss, n.Within (.stmt s)

/-- The nodes of a text that is short enough are stretches of it. -/
theorem Node.WrittenIn.fits {n : Node} {source : String}
    (short : source.utf8ByteSize ≤ Span.limit) (h : n.WrittenIn source) : Fits source n.span := by
  obtain ⟨ss, hss, s, hs, hn⟩ := h
  obtain ⟨ts, hts, hprogram⟩ := (parse_eq_ok_iff source ss).1 hss
  have fits : ∀ t ∈ ts, Fits source t.span := by
    intro t ht
    have listed : t ∈ (untilMistake (scan source)).1 := by
      rw [untilMistake_of_tokens hts]
      exact ht
    exact fits_of_mem_scan short (mem_of_untilMistake listed)
  obtain ⟨⟨t, ht, hstart⟩, ⟨t', ht', hstop⟩, le⟩ :=
    DerivesStmt.spans (fun t ht => (fits t ht).le) hprogram (fun _ ht => ht) ⟨s, hs, hn⟩
  refine ⟨le, ?_, ?_, ?_⟩
  · rw [hstop]
    exact (fits t' ht').inside
  · rw [hstart]
    exact (fits t ht).start
  · rw [hstop]
    exact (fits t' ht').stop

/-! ## Places -/

/-- A span that means something in the text: that of a token or of a mistake, that of a node
of its tree, or its end, as far as a span can hold it. -/
inductive Place (source : String) : Span → Prop where
  | item {item} : item ∈ scan source → Place source item.span
  | node {n : Node} : n.WrittenIn source → Place source n.span
  | ending : Place source (Span.point (Span.hold source.utf8ByteSize))

theorem Place.fits {source : String} {s : Span} (short : source.utf8ByteSize ≤ Span.limit)
    (h : Place source s) : Fits source s := by
  cases h with
  | item h => exact fits_of_mem_scan short h
  | node h => exact h.fits short
  | ending =>
    rw [Span.hold_of_le short]
    exact ⟨Nat.le_refl _, Nat.le_refl _, isBoundary_end source, isBoundary_end source⟩

end BraceScript
