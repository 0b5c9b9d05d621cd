-- The stretches of a program. The nodes below a node are made of some of its
-- tokens, each of them of tokens of its own. So the stretches form a tree, and
-- the text of a stretch is read as what stands there.
import BraceScript.Proofs.Grammar.Breaks
import BraceScript.Proofs.Scan.Slices
import Mathlib

namespace BraceScript

open Grammar

variable {source : String} {ts us vs : List Token} {s : Span} {n p : Node} {e : Expr}

/-! ## Tokens in order -/

/-- The tokens stand one behind the other, and none of them is empty. -/
structure InOrder (ts : List Token) : Prop where
  nonempty : ∀ t ∈ ts, t.span.start < t.span.stop
  apart : ts.Pairwise fun t u => t.span.stop ≤ u.span.start

theorem TokensAt.inOrder (h : TokensAt source ts) : InOrder ts :=
  ⟨fun _ ht => start_lt_stop_of_mem_scanFrom (h.mem ht), h.ordered.2⟩

namespace InOrder

theorem ordered (h : InOrder ts) : ∀ t ∈ ts, t.span.start ≤ t.span.stop :=
  fun t ht => Nat.le_of_lt (h.nonempty t ht)

theorem sublist (h : InOrder ts) (sub : us.Sublist ts) : InOrder us :=
  ⟨fun t ht => h.nonempty t (sub.mem ht), h.apart.sublist sub⟩

theorem left (h : InOrder (ts ++ us)) : InOrder ts := h.sublist (List.sublist_append_left ts us)

theorem right (h : InOrder (ts ++ us)) : InOrder us := h.sublist (List.sublist_append_right ts us)

theorem tail {t : Token} (h : InOrder (t :: ts)) : InOrder ts :=
  h.sublist (List.sublist_cons_self t ts)

/-- A stretch from one of the tokens to one of them that holds all of them. -/
theorem eq_cover (h : InOrder ts) (some : ts ≠ []) (ends : Spans ts s)
    (holds : ∀ t ∈ ts, s.start ≤ t.span.start ∧ t.span.stop ≤ s.stop) : s = cover ts := by
  have within := within_cover h.ordered h.apart
  obtain ⟨⟨t, ht, start⟩, ⟨u, hu, stop⟩, -⟩ := ends
  obtain ⟨⟨t', ht', start'⟩, ⟨u', hu', stop'⟩, -⟩ := spans_cover h.ordered some
  have := within t ht
  have := within u hu
  have := holds t' ht'
  have := holds u' hu'
  have sameStart : s.start = (cover ts).start := by omega
  have sameStop : s.stop = (cover ts).stop := by omega
  calc s = ⟨s.start, s.stop⟩ := rfl
    _ = cover ts := by rw [sameStart, sameStop]

/-- A stretch behind another one. -/
theorem cover_stop_le (h : InOrder (us ++ vs)) (some : us ≠ []) (some' : vs ≠ []) :
    (cover us).stop ≤ (cover vs).start := by
  obtain ⟨-, ⟨u, hu, stop⟩, -⟩ := spans_cover h.left.ordered some
  obtain ⟨⟨v, hv, start⟩, -, -⟩ := spans_cover h.right.ordered some'
  rw [stop, start]
  exact (List.pairwise_append.1 h.apart).2.2 u hu v hv

/-- A stretch of some of the tokens lies in that of all of them. -/
theorem cover_within (h : InOrder (ts ++ (us ++ vs))) (some : us ≠ []) :
    (cover (ts ++ (us ++ vs))).start ≤ (cover us).start ∧
      (cover us).stop ≤ (cover (ts ++ (us ++ vs))).stop := by
  have within := within_cover h.ordered h.apart
  obtain ⟨⟨t, ht, start⟩, ⟨u, hu, stop⟩, -⟩ := spans_cover h.right.left.ordered some
  rw [start, stop]
  exact ⟨(within t (by simp [ht])).1, (within u (by simp [hu])).2⟩

theorem cover_nonempty (h : InOrder ts) (some : ts ≠ []) : (cover ts).start < (cover ts).stop := by
  obtain ⟨t, us, rfl⟩ := List.exists_cons_of_ne_nil some
  have := within_cover h.ordered h.apart t (by simp)
  have := h.nonempty t (by simp)
  omega

theorem cover_stop {t : Token} (h : InOrder (ts ++ [t])) :
    (cover (ts ++ [t])).stop = t.span.stop := by
  have := within_cover h.ordered h.apart t (by simp)
  obtain ⟨-, ⟨u, hu, stop⟩, -⟩ := spans_cover h.ordered (by simp)
  rcases List.mem_append.1 hu with hu | hu
  · have := (List.pairwise_append.1 h.apart).2.2 u hu t (by simp)
    have := h.nonempty t (by simp)
    omega
  · rw [stop, List.mem_singleton.1 hu]

/-- Two stretches and what stands between them make up one. -/
theorem merge_cover (h : InOrder (us ++ (ts ++ vs))) (some : us ≠ []) (some' : vs ≠ []) :
    (cover us).merge (cover vs) = cover (us ++ (ts ++ vs)) := by
  have left := h.left
  have right := h.right.right
  refine h.eq_cover (by simp [some]) (Spans.merge ?_ ?_) fun t ht => ?_
  · exact (spans_cover left.ordered some).mono fun t ht => by simp [ht]
  · exact (spans_cover right.ordered some').mono fun t ht => by simp [ht]
  have withinLeft := within_cover left.ordered left.apart
  have withinRight := within_cover right.ordered right.apart
  have apart := (List.pairwise_append.1 h.apart).2.2
  have apart' := (List.pairwise_append.1 h.right.apart).2.2
  obtain ⟨u, us, rfl⟩ := List.exists_cons_of_ne_nil some
  obtain ⟨v, vs, rfl⟩ := List.exists_cons_of_ne_nil some'
  have first := withinLeft u (by simp)
  have last := withinRight v (by simp)
  have := h.nonempty u (by simp)
  have := h.nonempty v (by simp)
  have := h.nonempty t ht
  simp only [Span.merge]
  rcases List.mem_append.1 ht with ht | ht
  · have := withinLeft t ht
    have := apart t ht v (by simp)
    omega
  have behind := apart u (by simp) t ht
  rcases List.mem_append.1 ht with ht | ht
  · have := apart' t ht v (by simp)
    omega
  · have := withinRight t ht
    omega

end InOrder

/-! ## What nodes are made of -/

/-- The tokens make up the node somewhere in a program. -/
def Node.MadeOf (ts : List Token) : Node → Prop
  | .expr e => ∃ next, DerivesExpr true next ts (.expr e)
  | .stmt s => ∃ inFunction next, DerivesStmt true inFunction next ts (.stmt s)
  | .text _ => False

variable {next : Option Token.Kind} {inFunction : Bool}

theorem Grammar.DerivesExpr.madeOf (h : DerivesExpr true next ts (.expr e)) :
    (Node.expr e).MadeOf ts := ⟨next, h⟩

theorem Grammar.DerivesStmt.madeOf {s : Stmt} (h : DerivesStmt true inFunction next ts (.stmt s)) :
    (Node.stmt s).MadeOf ts := ⟨inFunction, next, h⟩

theorem Node.MadeOf.ne_nil (h : n.MadeOf ts) : ts ≠ [] := by
  cases n with
  | expr e =>
    obtain ⟨next, h⟩ := h
    obtain ⟨t, us, rfl, -⟩ := h.begins (by simp)
    simp
  | stmt s =>
    obtain ⟨inFunction, next, h⟩ := h
    obtain ⟨t, us, rfl, -⟩ := h.begins
    simp
  | text => cases h

/-- The nodes are made of some of the tokens, each of them of tokens of its own, in order. -/
inductive Laid : List Token → List Node → Prop where
  | nil {ts : List Token} : Laid ts []
  | skip {t : Token} {ts : List Token} {ns : List Node} : Laid ts ns → Laid (t :: ts) ns
  | node {us ts : List Token} {n : Node} {ns : List Node} : n.MadeOf us → Laid ts ns →
    Laid (us ++ ts) (n :: ns)

namespace Laid

variable {ns ms : List Node}

theorem before (h : Laid us ns) (ts : List Token) : Laid (ts ++ us) ns := by
  induction ts with
  | nil => exact h
  | cons t ts ih => exact .skip ih

theorem append (h : Laid ts ns) (h' : Laid us ms) : Laid (ts ++ us) (ns ++ ms) := by
  induction h with
  | nil => exact h'.before _
  | skip _ ih => exact .skip ih
  | node made _ ih =>
    rw [List.append_assoc]
    exact .node made ih

theorem behind (h : Laid ts ns) (us : List Token) : Laid (ts ++ us) ns := by
  have both : Laid (ts ++ us) (ns ++ []) := h.append .nil
  rwa [List.append_nil] at both

theorem single (h : n.MadeOf ts) : Laid ts [n] := by
  have alone : Laid (ts ++ []) [n] := .node h .nil
  rwa [List.append_nil] at alone

theorem mem (h : Laid ts ns) (hn : n ∈ ns) :
    ∃ xs us zs, ts = xs ++ (us ++ zs) ∧ n.MadeOf us := by
  induction h with
  | nil => cases hn
  | @skip t _ _ _ ih =>
    obtain ⟨xs, us, zs, rfl, made⟩ := ih hn
    exact ⟨t :: xs, us, zs, rfl, made⟩
  | @node vs ts _ _ made _ ih =>
    rcases List.mem_cons.1 hn with rfl | hn
    · exact ⟨[], vs, ts, rfl, made⟩
    · obtain ⟨xs, us, zs, rfl, made⟩ := ih hn
      exact ⟨vs ++ xs, us, zs, by simp, made⟩

end Laid

/-- The parts of what the tokens make up. -/
def Grammar.Phrase.parts : Phrase → List Node
  | .expr e | .unary e => e.form.parts
  | .primary form | .valueForm form => form.parts
  | .items es | .list es => es.map .expr

theorem Grammar.DerivesExpr.laid {phrase : Phrase} (h : DerivesExpr true next ts phrase) :
    Laid ts phrase.parts := by
  induction h with
  | operand _ ih | primary _ ih | valueForm _ ih | someItems _ ih => exact ih
  | operation hl _ hr _ _ =>
    exact .node hl.madeOf (.skip (.single (DerivesExpr.operand hr).madeOf))
  | operator _ he _ => exact .skip (.single (DerivesExpr.operand he).madeOf)
  | number | text | boolean | void | name | size | noItems => exact .nil
  | call _ ih => exact .skip (.skip (ih.behind _))
  | index he _ => exact .skip (.skip (Laid.behind (.single he.madeOf) _))
  | array _ ih | parens _ ih => exact .skip (ih.behind _)
  | operandForm hk _ he _ =>
    rw [Phrase.parts, parts_of_operandForm? hk]
    exact .skip (.single he.madeOf)
  | arrayForm hk _ he _ =>
    rw [Phrase.parts, parts_of_arrayForm? hk]
    exact .skip (.skip (.single he.madeOf))
  | lastItem he _ => exact .single he.madeOf
  | moreItems he _ _ ih => exact .node he.madeOf (.skip ih)

def Grammar.Sentence.parts : Sentence → List Node
  | .form f => f.parts
  | .stmt s => s.form.parts
  | .stmts ss | .block ss => ss.map .stmt

theorem Grammar.DerivesStmt.laid {sentence : Sentence}
    (h : DerivesStmt true inFunction next ts sentence) : Laid ts sentence.parts := by
  induction h with
  | declare he => exact .skip (.skip (.skip (.single he.madeOf)))
  | print he | returnValue _ he => exact .skip (.single he.madeOf)
  | assign he => exact .skip (.skip (.single he.madeOf))
  | branch hc _ ih =>
    refine .skip (.skip (.node hc.madeOf (.skip ?_)))
    simpa [Sentence.parts] using ih
  | branchElse hc _ _ ih ih' =>
    refine .skip (.skip (.node hc.madeOf (.skip ?_)))
    simpa [Sentence.parts] using ih.append (.skip ih')
  | loop ha hb _ ih =>
    exact .skip (.skip (.skip (.skip (.node ha.madeOf (.skip (.node hb.madeOf (.skip ih)))))))
  | «while» hc _ ih => exact .skip (.skip (.node hc.madeOf (.skip ih)))
  | function _ _ ih => exact .skip (.skip (.skip (Laid.before (.skip ih) _)))
  | async _ ih => exact .skip ih
  | returnNothing | deleteVariable | deleteFunction | connect | nil => exact .nil
  | call h => exact .single ⟨none, .operand (.primary (.call h))⟩
  | index h => exact .single ⟨none, .operand (.primary (.index h))⟩
  | valueForm h => exact .single ⟨_, .operand (.primary (.valueForm h))⟩
  | stmt _ ih => exact ih
  | cons hs _ _ ih => exact .node hs.madeOf ih
  | block _ ih => exact .skip (ih.behind _)

theorem Node.MadeOf.laid (h : n.MadeOf ts) : Laid ts n.parts := by
  cases n with
  | expr e =>
    obtain ⟨next, h⟩ := h
    exact h.laid
  | stmt s =>
    obtain ⟨inFunction, next, h⟩ := h
    exact h.laid
  | text => cases h

/-- A node within another one is made of some of its tokens. -/
theorem Node.MadeOf.within (h : p.MadeOf ts) (hn : n.Within p) :
    ∃ xs us zs, ts = xs ++ (us ++ zs) ∧ n.MadeOf us := by
  induction hn generalizing ts with
  | self => exact ⟨[], ts, [], by simp, h⟩
  | under _ part ih =>
    obtain ⟨xs, us, zs, rfl, made⟩ := h.laid.mem part
    obtain ⟨xs', us', zs', rfl, made'⟩ := ih made
    exact ⟨xs ++ xs', us', zs' ++ zs, by simp, made'⟩

/-! ## The tree of stretches -/

/-- The expression stands from the first of the tokens to the last. -/
def Grammar.Phrase.Covers (ts : List Token) : Phrase → Prop
  | .expr e | .unary e => e.span = cover ts
  | _ => True

theorem Grammar.DerivesExpr.covers {longest : Bool} {phrase : Phrase} (order : InOrder ts)
    (h : DerivesExpr longest next ts phrase) : phrase.Covers ts := by
  induction h with
  | operand _ ih => exact ih order
  | @operation next ls rs l r k p op hl _ hr ihl ihr =>
    obtain ⟨t, us, rfl, -⟩ := hl.begins (by simp)
    obtain ⟨u, vs, rfl, -⟩ := hr.begins (by simp)
    have left : l.span = cover (t :: us) := ihl order.left
    have right : r.span = cover (u :: vs) := ihr order.right.tail
    have both : (cover (t :: us)).merge (cover (u :: vs)) =
        cover ((t :: us) ++ ([⟨k, p⟩] ++ (u :: vs))) :=
      InOrder.merge_cover order (List.cons_ne_nil _ _) (List.cons_ne_nil _ _)
    rw [← left, ← right] at both
    exact both
  | @operator next ts e k p op _ he ih =>
    obtain ⟨t, us, rfl, -⟩ := he.begins (by simp)
    have operand : e.span = cover (t :: us) := ih order.tail
    have both : (cover [⟨k, p⟩]).merge (cover (t :: us)) =
        cover ([⟨k, p⟩] ++ ([] ++ (t :: us))) :=
      InOrder.merge_cover order (List.cons_ne_nil _ _) (List.cons_ne_nil _ _)
    rw [← operand, cover_single] at both
    exact both
  | primary => rfl
  | _ => trivial

theorem Node.MadeOf.span_eq (order : InOrder ts) (h : n.MadeOf ts) : n.span = cover ts := by
  cases n with
  | expr e =>
    obtain ⟨next, h⟩ := h
    exact h.covers order
  | stmt s =>
    obtain ⟨inFunction, next, h⟩ := h
    exact h.span_eq
  | text => cases h

theorem Laid.pairwise {ns : List Node} (h : Laid ts ns) (order : InOrder ts) :
    ns.Pairwise fun p q => p.span.stop ≤ q.span.start := by
  induction h with
  | nil => exact .nil
  | skip _ ih => exact ih order.tail
  | @node us ts n ns made rest ih =>
    refine List.pairwise_cons.2 ⟨fun q hq => ?_, ih order.right⟩
    obtain ⟨xs, vs, zs, rfl, made'⟩ := rest.mem hq
    have front : InOrder (us ++ vs) := order.sublist
      ((List.Sublist.refl us).append
        ((List.sublist_append_left vs zs).trans (List.sublist_append_right xs (vs ++ zs))))
    rw [made.span_eq front.left, made'.span_eq front.right]
    exact front.cover_stop_le made.ne_nil made'.ne_nil

/-- The stretches below a node lie in its own, one behind the other. -/
structure Node.Tiled (n : Node) : Prop where
  nonempty : n.span.start < n.span.stop
  inside : ∀ p ∈ n.parts, n.span.start ≤ p.span.start ∧ p.span.stop ≤ n.span.stop
  apart : n.parts.Pairwise fun p q => p.span.stop ≤ q.span.start

theorem Node.MadeOf.tiled (order : InOrder ts) (h : n.MadeOf ts) : n.Tiled := by
  refine ⟨?_, fun p hp => ?_, h.laid.pairwise order⟩
  · rw [h.span_eq order]
    exact order.cover_nonempty h.ne_nil
  · obtain ⟨xs, us, zs, rfl, made⟩ := h.laid.mem hp
    rw [h.span_eq order, made.span_eq order.right.left]
    exact order.cover_within made.ne_nil

/-! ## Slices -/

/-- The text from the first of some tokens in a row to the last has these tokens and no others. -/
theorem TokensAt.exists_slice (h : TokensAt source (ts ++ (us ++ vs))) (some : us ≠ []) :
    ∃ text after, Reads source (cover us) text after ∧
      scanFrom (cover us).start text = us.map .token := by
  have order := h.inOrder.right.left
  obtain ⟨first, others, begins⟩ := List.exists_cons_of_ne_nil some
  obtain ⟨last, front, ends⟩ : ∃ last front, us = front ++ [last] :=
    ⟨us.getLast some, us.dropLast, (List.dropLast_concat_getLast some).symm⟩
  have start : (cover us).start = first.span.start := by rw [begins]; rfl
  have stop : (cover us).stop = last.span.stop := by
    rw [ends] at order ⊢
    exact order.cover_stop
  have fromFirst : scanFrom 0 source.toList =
      ts.map .token ++ .token first :: (others ++ vs).map .token := by rw [h, begins]; simp
  obtain ⟨before, t, b, whole, atFirst, behind, -⟩ := scanFrom_at fromFirst
  have upToLast : scanFrom (0 + byteLength before) (t ++ b) =
      front.map .token ++ .token last :: vs.map .token := by
    rw [behind, ← List.map_cons, ← List.cons_append, ← begins, ends]
    simp
  obtain ⟨a, u, after, split, atLast, -, slice⟩ := scanFrom_at upToLast
  simp only [Item.span, Nat.zero_add] at atFirst atLast slice
  rw [atFirst] at start
  rw [atLast] at stop
  refine ⟨a ++ u, after, ⟨before, ?_, start, ?_⟩, ?_⟩
  · rw [whole, split, List.append_assoc]
  · rw [stop, byteLength_append, byteLength_append, Nat.add_assoc]
  · rw [start, slice, ends]
    simp

/-- The tokens of a slice by itself. -/
theorem tokensAt_slice {text : List Char} {n : Nat} (items : scanFrom n text = us.map .token) :
    TokensAt (String.ofList text) (us.map (Token.move (· - n))) := by
  obtain ⟨ws, found, rfl⟩ := tokens_behind items.symm
  rwa [map_move_back]

/-- The text of a statement is read as the statement. -/
theorem programAt_slice {text : List Char} {n : Nat} {s : Stmt}
    (items : scanFrom n text = us.map .token) (h : DerivesStmt true false next us (.stmt s)) :
    ProgramAt (String.ofList text) [s.move (· - n)] := by
  have program : Program true us [s] := h.alone.followedBy endsStmt_none
  exact ⟨_, tokensAt_slice items, program.move (keepsOrder_sub n)⟩

/-- A keyword and a blank in front of a text. -/
theorem scanFrom_show (text : List Char) :
    scanFrom 0 ("show " ++ String.ofList text).toList =
      .token ⟨.keyword .show, ⟨0, 4⟩⟩ :: (scanFrom 0 text).map (Item.move (· + 5)) := by
  have characters : ("show " ++ String.ofList text).toList =
      's' :: 'h' :: 'o' :: 'w' :: ' ' :: text := by simp
  have word : cut 's' ('h' :: 'o' :: 'w' :: ' ' :: text) =
      ⟨.token (.keyword .show), ['s', 'h', 'o', 'w'], ' ' :: text⟩ := rfl
  have blank : cut ' ' text = ⟨.filler, [' '], text⟩ := rfl
  rw [characters, scanFrom_cons, word, scanFrom_cons, blank, ← scanFrom_add]
  rfl

/-- The text of an expression is read as the expression. -/
theorem programAt_show_slice {text : List Char}
    (items : scanFrom e.span.start text = us.map .token)
    (h : DerivesExpr true next us (.expr e)) :
    ProgramAt ("show " ++ String.ofList text)
      [.at ⟨0, 5 + e.span.length⟩ (.print .info (e.move (· - e.span.start + 5)))] := by
  let keyword : Token := ⟨.keyword .show, ⟨0, 4⟩⟩
  let ws := (us.map (Token.move (· - e.span.start))).map (Token.move (· + 5))
  have spelled : TokensAt ("show " ++ String.ofList text) (keyword :: ws) := by
    have slice := tokensAt_slice items
    rw [TokensAt, String.toList_ofList] at slice
    rw [TokensAt, scanFrom_show, slice]
    simp only [ws, List.map_cons, List.map_map]
    rfl
  have alone : DerivesExpr true none us (.expr e) := h.followedBy rfl
  have operand : DerivesExpr true none ws (.expr (e.move (· - e.span.start + 5))) := by
    have moved := (alone.move (keepsOrder_sub e.span.start)).move (keepsOrder_add 5)
    rwa [Phrase.move, Phrase.move, Expr.move_move] at moved
  have order := spelled.inOrder
  have place : cover (keyword :: ws) = ⟨0, 5 + e.span.length⟩ := by
    have both : (cover [keyword]).merge (cover ws) = cover ([keyword] ++ ([] ++ ws)) :=
      InOrder.merge_cover order (List.cons_ne_nil _ _) operand.madeOf.ne_nil
    have stretch : (e.move (· - e.span.start + 5)).span = cover ws :=
      operand.madeOf.span_eq order.tail
    rw [← stretch, cover_single, Expr.span_move] at both
    refine both.symm.trans ?_
    simp only [Span.merge, Span.move, Span.length, Span.mk.injEq]
    omega
  have print : DerivesStmt true false none (keyword :: ws) (.form (.print .info _)) :=
    @DerivesStmt.print true false none .info ws _ ⟨0, 4⟩ operand
  exact ⟨_, spelled, place ▸ (DerivesStmt.stmt print).alone⟩

/-! ## Programs -/

theorem Grammar.DerivesStmt.mem_stmts {ss : List Stmt} {s : Stmt}
    (h : DerivesStmt true inFunction next ts (.stmts ss)) (hs : s ∈ ss) :
    ∃ xs us zs next', ts = xs ++ (us ++ zs) ∧ DerivesStmt true inFunction next' us (.stmt s) := by
  induction ss generalizing ts with
  | nil => cases hs
  | cons first ss ih =>
    obtain ⟨ls, rs, rfl, hfirst, hss⟩ := h.uncons
    rcases List.mem_cons.1 hs with rfl | hs
    · exact ⟨[], ls, rs, _, rfl, hfirst⟩
    · obtain ⟨xs, us, zs, next', rfl, hs⟩ := ih hss hs
      exact ⟨ls ++ xs, us, zs, next', by simp, hs⟩

theorem Reads.size_le {text after : List Char} (h : Reads source s text after) :
    (String.ofList text).utf8ByteSize ≤ source.utf8ByteSize := by
  obtain ⟨before, whole, -, -⟩ := h
  rw [← byteLength_toList, ← byteLength_toList, whole, String.toList_ofList, byteLength_append,
    byteLength_append]
  omega

/-- The stretches of a program of less than 2^32 bytes form a tree: they are not empty, each begins
where a token does and ends where one does, and the parts of a node lie in its stretch, one behind
the other; so do the statements of the program. And each stretch means itself: the text of a
statement of the program is read as that statement, and the text of an expression, with `show` in
front, as a statement that prints that expression, each of them moved to where it stands then, as
far as spans can hold that. -/
theorem every_stretch_means_itself {ss : List Stmt} (short : source.utf8ByteSize ≤ Span.limit)
    (program : parse source = .ok ss) :
    (ss.Pairwise fun s s' => s.span.stop ≤ s'.span.start) ∧
    ∀ s ∈ ss,
      (∃ text after, Reads source s.span text after ∧
        parse (String.ofList text) = .ok [s.move (· - s.span.start)]) ∧
      ∀ n : Node, n.Within (.stmt s) →
        n.Tiled ∧ Fits source n.span ∧ (∃ ts, tokens source = .ok ts ∧ Spans ts n.span) ∧
        ∀ e, n = .expr e → ∃ text after, Reads source e.span text after ∧
          parse ("show " ++ String.ofList text) =
            .ok [.at (.clamped 0 (5 + e.span.length))
              (.print .info (e.move fun offset => Span.hold (offset - e.span.start + 5)))] := by
  obtain ⟨ts, hts, derived⟩ := (parse_eq_ok_iff_programAt short).1 program
  have order := hts.inOrder
  have row := derived.laid.pairwise order
  rw [Sentence.parts, List.pairwise_map] at row
  refine ⟨row, fun s hs => ?_⟩
  obtain ⟨xs, us, zs, next, rfl, hstmt⟩ := derived.mem_stmts hs
  refine ⟨?_, fun n hn => ?_⟩
  · obtain ⟨text, after, reads, items⟩ := hts.exists_slice hstmt.madeOf.ne_nil
    rw [← hstmt.span_eq] at reads items
    have slice : (String.ofList text).utf8ByteSize ≤ Span.limit := reads.size_le.trans short
    exact ⟨text, after, reads,
      (parse_eq_ok_iff_programAt slice).2 (programAt_slice items hstmt)⟩
  obtain ⟨ls, vs, rs, rfl, made⟩ := hstmt.madeOf.within hn
  have inside : InOrder vs := order.right.left.right.left
  have ends : Spans vs (cover vs) := spans_cover inside.ordered made.ne_nil
  have place := made.span_eq inside
  have spelled : tokens source = .ok (xs ++ (ls ++ (vs ++ rs) ++ zs)) := by
    rwa [tokens_eq_ok_iff, scan_of_le short]
  refine ⟨made.tiled inside, Node.WrittenIn.fits short ⟨ss, program, s, hs, hn⟩,
    ⟨_, spelled, ?_⟩, ?_⟩
  · rw [place]
    exact ends.mono fun t ht => by simp [ht]
  · rintro e rfl
    have whole : xs ++ (ls ++ (vs ++ rs) ++ zs) = xs ++ ls ++ (vs ++ (rs ++ zs)) := by simp
    obtain ⟨text, after, reads, items⟩ := (whole ▸ hts).exists_slice made.ne_nil
    rw [← place] at reads items
    obtain ⟨next, he⟩ := made
    have shown := (programAt_show_slice items he).parse_eq
    rw [List.map_singleton, Stmt.move_at, StmtForm.move, Expr.move_move] at shown
    exact ⟨text, after, reads, shown⟩

/-- A statement behind 2^32 blanks has the empty span at the limit. -/
theorem a_statement_behind_too_many_blanks : ∃ s,
    parse (indented (Span.limit + 1) "show a") = .ok [s] ∧ s.span = Span.point Span.limit ∧
      ¬ (Node.stmt s).Tiled := by
  have alone : parse "show a" = .ok [.at ⟨0, 6⟩ (.print .info (.at ⟨5, 6⟩ (.name "a")))] := by cbv
  have behind := parse_indented (Nat.le_succ Span.limit) alone
  exact ⟨_, behind, rfl, fun tiled => Nat.lt_irrefl _ tiled.nonempty⟩

/-- A sum in parentheses, within a product. -/
theorem a_sum_in_parentheses :
    let sum : Expr := .at ⟨5, 12⟩ (.binary .add (.at ⟨6, 7⟩ (.name "a")) (.at ⟨10, 11⟩ (.name "b")))
    let product : Expr := .at ⟨5, 16⟩ (.binary .mul sum (.at ⟨15, 16⟩ (.name "c")))
    let print : Stmt := .at ⟨0, 16⟩ (.print .info product)
    "show (a + b) * c".utf8ByteSize ≤ Span.limit ∧
    parse "show (a + b) * c" = .ok [print] ∧ (Node.expr sum).Tiled ∧
      ∃ text after, Reads "show (a + b) * c" ⟨5, 12⟩ text after ∧
        parse ("show " ++ String.ofList text) = .ok [.at ⟨0, 12⟩ (.print .info sum)] := by
  intro sum product print
  have short : "show (a + b) * c".utf8ByteSize ≤ Span.limit := by decide +kernel
  have program : parse "show (a + b) * c" = .ok [print] := by cbv
  have below : (Node.expr sum).Within (.stmt print) :=
    .under (.part (p := .expr sum) (q := .expr product) (by simp [product, Node.parts,
      Expr.form, ExprForm.parts])) (by simp [print, Node.parts, Stmt.form, StmtForm.parts])
  obtain ⟨-, each⟩ := every_stretch_means_itself short program
  obtain ⟨tiled, -, -, itself⟩ := (each print (by simp)).2 _ below
  obtain ⟨text, after, reads, parsed⟩ := itself sum rfl
  exact ⟨short, program, tiled, text, after, reads, parsed⟩

end BraceScript
