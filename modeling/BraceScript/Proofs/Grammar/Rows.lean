-- Rows of statements. Where the tokens of a row stand does not matter, nor
-- does what follows it, and a row can be cut wherever no statement is cut.
import BraceScript.Proofs.Grammar.Parse
import BraceScript.Proofs.Moved

namespace BraceScript

namespace Grammar

variable {g : Nat → Nat} {longest inFunction : Bool} {next : Option Token.Kind}
  {ts us : List Token}

/-! ## Moved tokens -/

@[simp] theorem ahead_move (ts : List Token) (next : Option Token.Kind) :
    ahead (ts.map (Token.move g)) next = ahead ts next := by
  cases ts <;> rfl

theorem lastStop_move (stop : Nat) (ts : List Token) :
    lastStop (g stop) (ts.map (Token.move g)) = g (lastStop stop ts) := by
  induction ts generalizing stop with
  | nil => rfl
  | cons t ts ih => exact ih t.span.stop

theorem cover_move (order : KeepsOrder g) (some : ts ≠ []) :
    cover (ts.map (Token.move g)) = (cover ts).move g := by
  cases ts with
  | nil => exact absurd rfl some
  | cons t ts =>
    simp only [cover, List.map_cons, Span.move, order.max, ← lastStop_move]
    rfl

def Phrase.move (g : Nat → Nat) : Phrase → Phrase
  | .expr e => .expr (e.move g)
  | .unary e => .unary (e.move g)
  | .primary form => .primary (form.move g)
  | .valueForm form => .valueForm (form.move g)
  | .items es => .items (es.map (Expr.move g))
  | .list es => .list (es.map (Expr.move g))

theorem move_of_operandForm? {k : Keyword} {form : Expr → ExprForm}
    (hk : operandForm? k = some form) (e : Expr) :
    (form e).move g = form (e.move g) := by
  cases k <;> cases hk <;> rfl

theorem move_of_arrayForm? {k : Keyword} {form : String → Expr → ExprForm}
    (hk : arrayForm? k = some form) (s : String) (e : Expr) :
    (form s e).move g = form s (e.move g) := by
  cases k <;> cases hk <;> rfl

/-- Moved tokens make up the moved tree. -/
theorem DerivesExpr.move {phrase : Phrase} (order : KeepsOrder g)
    (h : DerivesExpr longest next ts phrase) :
    DerivesExpr longest next (ts.map (Token.move g)) (phrase.move g) := by
  induction h with
  | operand _ ih => exact .operand ih
  | operation _ hop _ ihl ihr =>
    simpa [Phrase.move, ExprForm.move, Span.move_merge order] using
      DerivesExpr.operation ihl hop ihr
  | operator hop _ ih =>
    simpa [Phrase.move, ExprForm.move, Span.move_merge order] using DerivesExpr.operator hop ih
  | primary h ih =>
    obtain ⟨t, us, rfl, -⟩ := h.begins (by simp)
    have := DerivesExpr.primary ih
    rwa [cover_move order (by simp)] at this
  | number => exact .number
  | text => exact .text
  | boolean => exact .boolean
  | void => exact .void
  | name => exact .name
  | call _ ih => simpa [Phrase.move, ExprForm.move] using DerivesExpr.call ih
  | index _ ih => simpa [Phrase.move, ExprForm.move] using DerivesExpr.index ih
  | array _ ih => simpa [Phrase.move, ExprForm.move] using DerivesExpr.array ih
  | parens _ ih => simpa [Phrase.move] using DerivesExpr.parens ih
  | valueForm _ ih => exact .valueForm ih
  | operandForm hk ends _ ih =>
    simpa [Phrase.move, move_of_operandForm? hk] using DerivesExpr.operandForm hk ends ih
  | arrayForm hk ends _ ih =>
    simpa [Phrase.move, move_of_arrayForm? hk] using DerivesExpr.arrayForm hk ends ih
  | size => exact .size
  | lastItem _ ih => exact .lastItem ih
  | moreItems _ _ ihe ihes => simpa [Phrase.move] using DerivesExpr.moreItems ihe ihes
  | noItems => exact .noItems
  | someItems _ ih => exact .someItems ih

def Sentence.move (g : Nat → Nat) : Sentence → Sentence
  | .form f => .form (f.move g)
  | .stmt s => .stmt (s.move g)
  | .stmts ss => .stmts (ss.map (Stmt.move g))
  | .block ss => .block (ss.map (Stmt.move g))

theorem DerivesNames.move {ss : List String} (h : DerivesNames ts ss) :
    DerivesNames (ts.map (Token.move g)) ss := by
  induction h with
  | last => exact .last
  | more _ ih => exact .more ih

theorem DerivesParams.move {ss : List String} (h : DerivesParams ts ss) :
    DerivesParams (ts.map (Token.move g)) ss := by
  cases h with
  | none => exact .none
  | some h => exact .some h.move

/-- Moved tokens make up the moved tree. -/
theorem DerivesStmt.move {sentence : Sentence} (order : KeepsOrder g)
    (h : DerivesStmt longest inFunction next ts sentence) :
    DerivesStmt longest inFunction next (ts.map (Token.move g)) (sentence.move g) := by
  induction h with
  | declare he => simpa [Sentence.move, StmtForm.move] using DerivesStmt.declare (he.move order)
  | print he => exact .print (he.move order)
  | branch hc _ ih =>
    simpa [Sentence.move, StmtForm.move] using DerivesStmt.branch (hc.move order) ih
  | branchElse hc _ _ ih ih' =>
    simpa [Sentence.move, StmtForm.move] using DerivesStmt.branchElse (hc.move order) ih ih'
  | loop ha hb _ ih =>
    simpa [Sentence.move, StmtForm.move] using DerivesStmt.loop (ha.move order) (hb.move order) ih
  | «while» hc _ ih =>
    simpa [Sentence.move, StmtForm.move] using DerivesStmt.while (hc.move order) ih
  | function has _ ih =>
    simpa [Sentence.move, StmtForm.move] using DerivesStmt.function has.move ih
  | returnNothing omitted => exact .returnNothing omitted
  | returnValue given he => exact .returnValue (by simpa using given) (he.move order)
  | deleteVariable => exact .deleteVariable
  | deleteFunction => exact .deleteFunction
  | connect => exact .connect
  | async _ ih => simpa [Sentence.move, StmtForm.move] using DerivesStmt.async ih
  | call hes =>
    simp only [Sentence.move, StmtForm.move, Expr.move_at,
      ← cover_move order (List.cons_ne_nil _ _)]
    simpa [ExprForm.move] using DerivesStmt.call (hes.move order)
  | index he =>
    simp only [Sentence.move, StmtForm.move, Expr.move_at,
      ← cover_move order (List.cons_ne_nil _ _)]
    simpa [ExprForm.move] using DerivesStmt.index (he.move order)
  | assign he => exact .assign (he.move order)
  | valueForm h =>
    obtain ⟨k, p, us, rfl, -⟩ := h.begins_valueForm
    simp only [Sentence.move, StmtForm.move, Expr.move_at,
      ← cover_move order (List.cons_ne_nil _ _)]
    exact .valueForm (h.move order)
  | stmt h ih =>
    obtain ⟨t, us, rfl, -⟩ := h.begins_form
    have := DerivesStmt.stmt ih
    rwa [cover_move order (by simp)] at this
  | nil => exact .nil
  | cons _ _ ihs ihss =>
    rw [← ahead_move (g := g)] at ihs
    simpa [Sentence.move] using DerivesStmt.cons ihs ihss
  | block _ ih => simpa [Sentence.move] using DerivesStmt.block ih

/-! ## What follows -/

variable {next' : Option Token.Kind}

/-- What follows an expression does not matter, if the expression is over there. -/
theorem DerivesExpr.followedBy {phrase : Phrase} (h : DerivesExpr longest next ts phrase)
    (ends : EndsExpr next') : DerivesExpr longest next' ts phrase := by
  induction h with
  | operand _ ih => exact .operand ih
  | operation hl hop _ _ ih => exact .operation hl hop ih
  | operator hop _ ih => exact .operator hop ih
  | primary _ ih => exact .primary ih
  | number => exact .number
  | text => exact .text
  | boolean => exact .boolean
  | void => exact .void
  | name => exact .name
  | call h _ => exact .call h
  | index h _ => exact .index h
  | array h _ => exact .array h
  | parens h _ => exact .parens h
  | valueForm _ ih => exact .valueForm ih
  | operandForm hk _ _ ih => exact .operandForm hk (fun _ => ends) ih
  | arrayForm hk _ _ ih => exact .arrayForm hk (fun _ => ends) ih
  | size => exact .size
  | lastItem _ ih => exact .lastItem ih
  | moreItems he _ _ ih => exact .moreItems he ih
  | noItems => exact .noItems
  | someItems _ ih => exact .someItems ih

theorem DerivesStmt.block_followedBy {ss : List Stmt}
    (h : DerivesStmt longest inFunction next ts (.block ss)) (next' : Option Token.Kind) :
    DerivesStmt longest inFunction next' ts (.block ss) := by
  cases h with
  | block h => exact .block h

/-- What follows a statement does not matter, if it ends a statement and, in the body of a
function, a `return` as well. -/
theorem DerivesStmt.form_followedBy {form : StmtForm}
    (h : DerivesStmt longest inFunction next ts (.form form)) (ends : EndsStmt next')
    (omits : inFunction = true → omitsValue next' = true) :
    DerivesStmt longest inFunction next' ts (.form form) := by
  cases h with
  | declare he => exact .declare (he.followedBy ends.endsExpr)
  | print he => exact .print (he.followedBy ends.endsExpr)
  | branch hc h => exact .branch hc (h.block_followedBy _)
  | branchElse hc h h' => exact .branchElse hc h (h'.block_followedBy _)
  | loop ha hb h => exact .loop ha hb (h.block_followedBy _)
  | «while» hc h => exact .while hc (h.block_followedBy _)
  | function has h => exact .function has (h.block_followedBy _)
  | returnNothing => exact .returnNothing (omits rfl)
  | returnValue given he =>
    obtain ⟨t, us, rfl, -⟩ := he.begins (by simp)
    exact .returnValue given (he.followedBy ends.endsExpr)
  | deleteVariable => exact .deleteVariable
  | deleteFunction => exact .deleteFunction
  | connect => exact .connect
  | async h => exact .async (h.block_followedBy _)
  | call h => exact .call h
  | index h => exact .index h
  | assign he => exact .assign (he.followedBy ends.endsExpr)
  | valueForm h => exact .valueForm (h.followedBy ends.endsExpr)

/-- A statement is a row by itself. -/
theorem DerivesStmt.alone {s : Stmt} (h : DerivesStmt longest inFunction next ts (.stmt s)) :
    DerivesStmt longest inFunction next ts (.stmts [s]) := by
  have := @DerivesStmt.cons longest inFunction next ts [] s [] h .nil
  rwa [List.append_nil] at this

/-- The parts of a row that is not empty. -/
theorem DerivesStmt.uncons {s : Stmt} {ss : List Stmt}
    (h : DerivesStmt longest inFunction next ts (.stmts (s :: ss))) :
    ∃ ls rs, ts = ls ++ rs ∧ DerivesStmt longest inFunction (ahead rs next) ls (.stmt s) ∧
      DerivesStmt longest inFunction next rs (.stmts ss) := by
  cases h with
  | cons hs hss => exact ⟨_, _, rfl, hs, hss⟩

/-- What follows a row does not matter outside of functions, if statements can end there. -/
theorem DerivesStmt.followedBy {ss : List Stmt}
    (h : DerivesStmt longest false next ts (.stmts ss)) (ends : EndsStmt next') :
    DerivesStmt longest false next' ts (.stmts ss) := by
  induction ss generalizing ts with
  | nil =>
    cases h with
    | nil => exact .nil
  | cons s ss ih =>
    obtain ⟨ls, rs, rfl, hs, hss⟩ := h.uncons
    have rest := ih hss
    cases hs with
    | stmt hform =>
      exact .cons (.stmt (hform.form_followedBy (rest.endsStmt_ahead ends) nofun)) rest

/-- Two rows make up one row. -/
theorem DerivesStmt.append {ss ss' : List Stmt}
    (h : DerivesStmt longest inFunction (ahead us next) ts (.stmts ss))
    (h' : DerivesStmt longest inFunction next us (.stmts ss')) :
    DerivesStmt longest inFunction next (ts ++ us) (.stmts (ss ++ ss')) := by
  induction ss generalizing ts with
  | nil =>
    cases h with
    | nil => exact h'
  | cons s ss ih =>
    obtain ⟨ls, rs, rfl, hs, hss⟩ := h.uncons
    rw [List.append_assoc]
    exact .cons (by rwa [ahead_append]) (ih hss)

/-! ## Cutting rows in two -/

theorem DerivesStmt.span_eq {s : Stmt} (h : DerivesStmt longest inFunction next ts (.stmt s)) :
    s.span = cover ts := by
  cases h with
  | stmt _ => rfl

theorem stop_le_lastStop (ordered : ∀ t ∈ ts, t.span.start ≤ t.span.stop)
    (row : ts.Pairwise fun t u => t.span.stop ≤ u.span.start) (stop : Nat) :
    ∀ t ∈ ts, t.span.stop ≤ lastStop stop ts := by
  induction ts generalizing stop with
  | nil => simp
  | cons t ts ih =>
    obtain ⟨first, row⟩ := List.pairwise_cons.1 row
    have rest := ih (fun u hu => ordered u (by simp [hu])) row t.span.stop
    intro u hu
    rcases List.mem_cons.1 hu with rfl | hu
    · cases ts with
      | nil => exact Nat.le_refl _
      | cons v ts =>
        have := first v (by simp)
        have := ordered v (by simp)
        have := rest v (by simp)
        rw [lastStop_cons]
        omega
    · exact rest u hu

/-- Tokens that stand one behind the other lie in the stretch from the first to the last. -/
theorem within_cover (ordered : ∀ t ∈ ts, t.span.start ≤ t.span.stop)
    (row : ts.Pairwise fun t u => t.span.stop ≤ u.span.start) :
    ∀ t ∈ ts, (cover ts).start ≤ t.span.start ∧ t.span.stop ≤ (cover ts).stop := by
  cases ts with
  | nil => simp
  | cons t ts =>
    obtain ⟨first, row⟩ := List.pairwise_cons.1 row
    have last := stop_le_lastStop (fun u hu => ordered u (by simp [hu])) row t.span.stop
    intro u hu
    rcases List.mem_cons.1 hu with rfl | hu
    · simp only [cover]
      omega
    · have := ordered t (by simp)
      have := first u hu
      have := last u hu
      simp only [cover]
      omega

/-- A statement with tokens on both sides of an offset stands across it. -/
theorem DerivesStmt.across {s : Stmt} {offset : Nat} {t u : Token}
    (h : DerivesStmt longest inFunction next ts (.stmt s))
    (ordered : ∀ t ∈ ts, t.span.start ≤ t.span.stop)
    (row : ts.Pairwise fun t u => t.span.stop ≤ u.span.start) (ht : t ∈ ts) (hu : u ∈ ts)
    (before : t.span.stop ≤ offset) (after : offset < u.span.start) :
    s.span.start ≤ offset ∧ offset < s.span.stop := by
  have left := within_cover ordered row t ht
  have right := within_cover ordered row u hu
  have := ordered t ht
  have := ordered u hu
  rw [h.span_eq]
  omega

/-- If no statement of a row stands across an offset, no token does. -/
theorem DerivesStmt.tokens_apart {ss : List Stmt} {offset : Nat}
    (ordered : ∀ t ∈ ts, t.span.start ≤ t.span.stop)
    (row : ts.Pairwise fun t u => t.span.stop ≤ u.span.start)
    (uncut : ∀ s ∈ ss, offset < s.span.start ∨ s.span.stop ≤ offset)
    (h : DerivesStmt longest inFunction next ts (.stmts ss)) :
    ∀ t ∈ ts, t.span.stop ≤ offset ∨ offset < t.span.start := by
  induction ss generalizing ts with
  | nil =>
    cases h with
    | nil => simp
  | cons s ss ih =>
    obtain ⟨ls, rs, rfl, hs, hss⟩ := h.uncons
    obtain ⟨rowLeft, rowRight, -⟩ := List.pairwise_append.1 row
    intro t ht
    rcases List.mem_append.1 ht with ht | ht
    · have inside := within_cover (fun t ht => ordered t (by simp [ht])) rowLeft t ht
      have := uncut s (by simp)
      rw [hs.span_eq] at this
      omega
    · exact ih (fun t ht => ordered t (by simp [ht])) rowRight (fun s hs => uncut s (by simp [hs]))
        hss t ht

/-- A row can be cut at an offset that no statement stands across. -/
theorem DerivesStmt.split {ss : List Stmt} {offset : Nat}
    (ordered : ∀ t ∈ ts ++ us, t.span.start ≤ t.span.stop)
    (row : (ts ++ us).Pairwise fun t u => t.span.stop ≤ u.span.start)
    (before : ∀ t ∈ ts, t.span.stop ≤ offset) (after : ∀ t ∈ us, offset < t.span.start)
    (uncut : ∀ s ∈ ss, offset < s.span.start ∨ s.span.stop ≤ offset)
    (h : DerivesStmt longest inFunction next (ts ++ us) (.stmts ss)) :
    ∃ ss₁ ss₂, ss = ss₁ ++ ss₂ ∧
      DerivesStmt longest inFunction (ahead us next) ts (.stmts ss₁) ∧
      DerivesStmt longest inFunction next us (.stmts ss₂) := by
  induction ss generalizing ts with
  | nil =>
    generalize hall : ts ++ us = all at h
    cases h with
    | nil =>
      obtain ⟨rfl, rfl⟩ := List.append_eq_nil_iff.1 hall
      exact ⟨[], [], rfl, .nil, .nil⟩
  | cons s ss ih =>
    obtain ⟨ls, rs, hall, hs, hss⟩ := h.uncons
    rw [hall] at ordered row
    -- The cut is either within the first statement, or at its end or behind it.
    rcases List.append_eq_append_iff.1 hall with ⟨bs, rfl, rfl⟩ | ⟨as, rfl, rfl⟩
    · rcases ts with _ | ⟨t, ts⟩
      · exact ⟨[], s :: ss, rfl, .nil, .cons hs hss⟩
      rcases bs with _ | ⟨u, bs⟩
      · exact ⟨[s], ss, rfl, by simpa using hs.alone, hss⟩
      have across := hs.across (fun t ht => ordered t (List.mem_append_left _ ht))
        (List.pairwise_append.1 row).1 (t := t) (u := u) (by simp) (by simp)
        (before t (by simp)) (after u (by simp))
      have := uncut s (by simp)
      omega
    · obtain ⟨ss₁, ss₂, rfl, h₁, h₂⟩ := ih (fun t ht => ordered t (List.mem_append_right _ ht))
        (List.pairwise_append.1 row).2.1 (fun t ht => before t (by simp [ht]))
        (fun s hs => uncut s (by simp [hs])) hss
      refine ⟨s :: ss₁, ss₂, rfl, .cons ?_ h₁, h₂⟩
      rwa [← ahead_append]

end Grammar

end BraceScript
