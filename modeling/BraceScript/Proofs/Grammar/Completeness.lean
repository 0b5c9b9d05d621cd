-- Whatever the grammar derives is read, and as the same tree. The readers
-- find out from the one token ahead which rule it was, so a phrase is read in
-- one way only; what follows a phrase must not be able to go on with it.
import BraceScript.Proofs.Grammar.Soundness
import BraceScript.Tree.Progress

namespace BraceScript

namespace Reader

open Grammar

variable {α β : Type} {length : Nat} {ts us rest : List Token} {stop : Nat}

/-! ## Readers that give what is known -/

/-- The reader takes the tokens off the front and gives the value, unless the depth
that it has does not suffice. -/
def Yields (length : Nat) (x : Reader α) (ts rest : List Token) (stop : Nat) (v : α) : Prop :=
  x (.complete length) ⟨ts ++ rest, stop⟩ = .outOfFuel ∨
    x (.complete length) ⟨ts ++ rest, stop⟩ = .done v ⟨rest, lastStop stop ts⟩

theorem Yields.andThen {x : Reader α} {f : α → Reader β} {v : α} {w : β}
    (hx : Yields length x ts (us ++ rest) stop v)
    (hf : Yields length (f v) us rest (lastStop stop ts) w) :
    Yields length (x >>= f) (ts ++ us) rest stop w := by
  unfold Yields
  rw [List.append_assoc, lastStop_append]
  rcases hx with hx | hx
  · exact Or.inl (bind_outOfFuel hx)
  · rw [bind_done hx]
    exact hf

/-- The last of two readers takes nothing. -/
theorem Yields.last {x : Reader α} {f : α → Reader β} {v : α} {w : β}
    (hx : Yields length x ts rest stop v) (hf : Yields length (f v) [] rest (lastStop stop ts) w) :
    Yields length (x >>= f) ts rest stop w := by
  simpa using @Yields.andThen _ _ length ts [] rest stop x f v w hx hf

theorem yields_outOfFuel (v : α) : Yields length outOfFuel ts rest stop v := Or.inl rfl

/-- With no depth at all a reader gives up, so only the others count. -/
theorem yields_of_succ {x : Nat → Reader α} {v : α} (zero : x 0 = outOfFuel)
    (succ : ∀ n, Yields length (x (n + 1)) ts rest stop v) (n : Nat) :
    Yields length (x n) ts rest stop v := by
  cases n with
  | zero =>
    rw [zero]
    exact yields_outOfFuel v
  | succ n => exact succ n

theorem yields_pure (v : α) : Yields length (Pure.pure v) [] rest stop v := Or.inr rfl

theorem yields_exprFrom (start : Span) (form : ExprForm) :
    Yields length (exprFrom start form) [] rest stop
      (.at ⟨start.start, max stop start.stop⟩ form) := Or.inr rfl

theorem head?_append (ts rest : List Token) :
    (ts ++ rest).head?.map Token.kind = ahead ts (ahead rest none) := by
  rw [← ahead_append]
  simp [ahead]

theorem Yields.afterPeek {f : Option Token.Kind → Reader α} {v : α}
    (h : Yields length (f (ahead ts (ahead rest none))) ts rest stop v) :
    Yields length (peek >>= f) ts rest stop v := by
  rw [← head?_append] at h
  exact h

theorem Yields.afterAt {s : Sign} {f : Bool → Reader α} {v : α}
    (h : Yields length (f (decide (ahead ts (ahead rest none) = some (.sign s)))) ts rest stop v) :
    Yields length (at? s >>= f) ts rest stop v := by
  rw [← head?_append] at h
  exact h

theorem Yields.afterUnaryOperator {f : Option UnaryOperator → Reader α} {v : α}
    (h : Yields length (f ((ahead ts (ahead rest none)).bind Token.Kind.unaryOperator?))
      ts rest stop v) : Yields length (unaryOperator? >>= f) ts rest stop v := by
  rw [← head?_append] at h
  exact h

theorem Yields.afterBinaryOperator {f : Option BinaryOperator → Reader α} {v : α}
    (h : Yields length (f ((ahead ts (ahead rest none)).bind Token.Kind.binaryOperator?))
      ts rest stop v) : Yields length (binaryOperator? >>= f) ts rest stop v := by
  rw [← head?_append] at h
  exact h

theorem Yields.afterHere {f : Span → Reader α} {t : Token} {v : α}
    (h : Yields length (f t.span) (t :: ts) rest stop v) :
    Yields length (here >>= f) (t :: ts) rest stop v := h

theorem yields_skip (t : Token) : Yields length skip [t] rest stop () := by
  cases rest <;> exact Or.inr rfl

theorem Yields.afterSkip {f : Unit → Reader α} {t : Token} {v : α}
    (h : Yields length (f ()) ts rest t.span.stop v) :
    Yields length (skip >>= f) (t :: ts) rest stop v := (yields_skip t).andThen h

theorem yields_sign (s : Sign) (p : Span) :
    Yields length (sign s) [⟨.sign s, p⟩] rest stop () := by
  apply Yields.afterAt
  simpa using yields_skip _

theorem Yields.afterSign {s : Sign} {f : Unit → Reader α} {p : Span} {v : α}
    (h : Yields length (f ()) ts rest p.stop v) :
    Yields length (sign s >>= f) (⟨.sign s, p⟩ :: ts) rest stop v := (yields_sign s p).andThen h

theorem Yields.afterName {s : String} {f : String → Reader α} {p : Span} {v : α}
    (h : Yields length (f s) ts rest p.stop v) :
    Yields length (name >>= f) (⟨.name s, p⟩ :: ts) rest stop v := by
  have taken : Yields length name [⟨.name s, p⟩] (ts ++ rest) stop s :=
    Yields.afterPeek (Yields.afterSkip (yields_pure s))
  exact taken.andThen h

/-! ## Expressions -/

/-- How the tokens of a phrase are read if `next` follows them. An expression is read up to
the point where the operators behind it are looked for. -/
def IsRead (length : Nat) (next : Option Token.Kind) (ts : List Token) : Phrase → Prop
  | .expr e => ∀ n rest stop, ahead rest none = next →
    expr n (.complete length) ⟨ts ++ rest, stop⟩ = .outOfFuel ∨
      ∃ m, expr n (.complete length) ⟨ts ++ rest, stop⟩ =
        operations m e (.complete length) ⟨rest, lastStop stop ts⟩
  | .unary e => ∀ n rest stop, ahead rest none = next → Yields length (unary n) ts rest stop e
  | .primary form => ∀ n rest stop, ahead rest none = next →
    Yields length (primary n) ts rest stop (.at (cover ts) form)
  | .valueForm form => ∀ n rest stop, ahead rest none = next →
    Yields length (valueForm (expr n)) ts rest stop (.at (cover ts) form)
  | .items es => EndsExpr next → next ≠ some (.sign .comma) → ∀ n rest stop,
    ahead rest none = next → Yields length (items n) ts rest stop es
  | .list es => ∀ close p, next = some (.sign close) →
    close = .rightParen ∨ close = .rightBracket → ∀ n rest stop,
    Yields length (listUntil close (items n)) (ts ++ [⟨.sign close, p⟩]) rest stop es

variable {next : Option Token.Kind}

theorem yields_operations {e : Expr} (m : Nat) (ends : EndsExpr (ahead rest none)) :
    Yields length (operations m e) [] rest stop e := by
  cases m with
  | zero => exact yields_outOfFuel e
  | succ m =>
    unfold operations
    apply Yields.afterBinaryOperator
    rw [ahead_nil, ends]
    exact yields_pure e

/-- If no operator is next, the expression is over. -/
theorem IsRead.yields {e : Expr} (h : IsRead length next ts (.expr e)) (ends : EndsExpr next)
    (n : Nat) (hrest : ahead rest none = next) : Yields length (expr n) ts rest stop e := by
  rcases h n rest stop hrest with h | ⟨m, h⟩
  · exact Or.inl h
  · unfold Yields
    rw [h]
    exact yields_operations m (by rw [hrest]; exact ends)

theorem unaryOperator?_of_primary {form : ExprForm}
    (h : DerivesExpr true next ts (.primary form)) :
    ∃ t us, ts = t :: us ∧ t.kind.unaryOperator? = none := by
  cases h with
  | valueForm h =>
    obtain ⟨k, p, us, rfl, -⟩ := h.begins_valueForm
    exact ⟨_, _, rfl, rfl⟩
  | _ => exact ⟨_, _, rfl, rfl⟩

theorem yields_operand {e : Expr} {k : Keyword} {p : Span} {form : Expr → ExprForm}
    (he : IsRead length next ts (.expr e)) (hk : operandForm? k = some form)
    (ends : EndsExpr next) (n : Nat) (hrest : ahead rest none = next) :
    Yields length (valueForm (expr n)) (⟨.keyword k, p⟩ :: ts) rest stop
      (.at (cover (⟨.keyword k, p⟩ :: ts)) (form e)) := by
  have operand : Yields length (do let v ← expr n; exprFrom p (form v)) ts rest p.stop
      (.at (cover (⟨.keyword k, p⟩ :: ts)) (form e)) :=
    (he.yields ends n hrest).last (yields_exprFrom _ _)
  unfold valueForm
  refine Yields.afterHere (Yields.afterPeek ?_)
  cases k <;> cases hk <;> exact Yields.afterSkip operand

theorem yields_namedOperand {e : Expr} {k : Keyword} {s : String} {p q : Span}
    {form : String → Expr → ExprForm} (he : IsRead length next ts (.expr e))
    (hk : arrayForm? k = some form) (ends : EndsExpr next) (n : Nat)
    (hrest : ahead rest none = next) :
    Yields length (valueForm (expr n)) (⟨.keyword k, p⟩ :: ⟨.name s, q⟩ :: ts) rest stop
      (.at (cover (⟨.keyword k, p⟩ :: ⟨.name s, q⟩ :: ts)) (form s e)) := by
  have operand : Yields length (do let v ← expr n; exprFrom p (form s v)) ts rest q.stop
      (.at (cover (⟨.keyword k, p⟩ :: ⟨.name s, q⟩ :: ts)) (form s e)) :=
    (he.yields ends n hrest).last (yields_exprFrom _ _)
  unfold valueForm
  refine Yields.afterHere (Yields.afterPeek ?_)
  cases k <;> cases hk <;> exact Yields.afterSkip (Yields.afterName operand)

theorem operations_succ {l : Expr} {k : Token.Kind} {op : BinaryOperator} {p : Span} (m : Nat)
    (hop : k.binaryOperator? = some op) :
    operations (m + 1) l (.complete length) ⟨⟨k, p⟩ :: ts, stop⟩ =
      (do let r ← unary m; operations m (.at (l.span.merge r.span) (.binary op l r)))
        (.complete length) ⟨ts, p.stop⟩ := by
  have seen : binaryOperator? (.complete length) ⟨⟨k, p⟩ :: ts, stop⟩ =
      .done (some op) ⟨⟨k, p⟩ :: ts, stop⟩ := by
    rw [← hop]
    rfl
  have taken : skip (.complete length) ⟨⟨k, p⟩ :: ts, stop⟩ = .done () ⟨ts, p.stop⟩ := by
    cases ts <;> rfl
  rw [operations, bind_done seen]
  exact bind_done taken

/-! ### One rule after the other -/

theorem isRead_operand {e : Expr} (h : IsRead length next ts (.unary e)) :
    IsRead length next ts (.expr e) := by
  intro n rest stop hrest
  cases n with
  | zero => exact Or.inl rfl
  | succ n =>
    unfold expr
    rcases h n rest stop hrest with h | h
    · exact Or.inl (bind_outOfFuel h)
    · exact Or.inr ⟨n, bind_done h⟩

theorem isRead_operation {ls rs : List Token} {l r : Expr} {k : Token.Kind} {op : BinaryOperator}
    {p : Span} (hop : k.binaryOperator? = some op) (hl : IsRead length (some k) ls (.expr l))
    (hr : IsRead length next rs (.unary r)) :
    IsRead length next (ls ++ ⟨k, p⟩ :: rs)
      (.expr (.at (l.span.merge r.span) (.binary op l r))) := by
  intro n rest stop hrest
  rw [List.append_assoc]
  rcases hl n (⟨k, p⟩ :: rs ++ rest) stop rfl with h | ⟨m, h⟩
  · exact Or.inl h
  · rw [h]
    cases m with
    | zero => exact Or.inl rfl
    | succ m =>
      rw [List.cons_append, operations_succ m hop, lastStop_append, lastStop_cons]
      rcases hr m rest p.stop hrest with h | h
      · exact Or.inl (bind_outOfFuel h)
      · exact Or.inr ⟨m, bind_done h⟩

theorem isRead_operator {e : Expr} {k : Token.Kind} {op : UnaryOperator} {p : Span}
    (hop : k.unaryOperator? = some op) (h : IsRead length next ts (.unary e)) :
    IsRead length next (⟨k, p⟩ :: ts) (.unary (.at (p.merge e.span) (.unary op e))) := by
  intro n rest stop hrest
  refine yields_of_succ rfl (fun n => ?_) n
  unfold unary
  apply Yields.afterUnaryOperator
  simp only [ahead_cons, Option.bind_some, hop]
  refine Yields.afterHere (Yields.afterSkip ?_)
  exact (h n rest p.stop hrest).last (yields_pure _)

theorem isRead_primary {form : ExprForm} (derives : DerivesExpr true next ts (.primary form))
    (h : IsRead length next ts (.primary form)) :
    IsRead length next ts (.unary (.at (cover ts) form)) := by
  intro n rest stop hrest
  obtain ⟨t, us, rfl, ht⟩ := unaryOperator?_of_primary derives
  refine yields_of_succ rfl (fun n => ?_) n
  unfold unary
  apply Yields.afterUnaryOperator
  simp only [ahead_cons, Option.bind_some, ht]
  exact h n rest stop hrest

theorem isRead_name (s : String) (p : Span) (ends : EndsName next) :
    IsRead length next [⟨.name s, p⟩] (.primary (.name s)) := by
  intro n rest stop hrest
  refine yields_of_succ rfl (fun n => ?_) n
  have tail : Yields length (nameTail (expr n) (items n) s) [] rest p.stop (.name s) := by
    unfold nameTail
    apply Yields.afterPeek
    rw [ahead_nil, hrest]
    split
    · exact absurd rfl ends.1
    · exact absurd rfl ends.2
    · exact yields_pure _
  unfold primary
  refine Yields.afterHere (Yields.afterPeek (Yields.afterSkip ?_))
  exact tail.last (yields_exprFrom _ _)

theorem isRead_call {s : String} {es : List Expr} {p q r : Span}
    (h : IsRead length (some (.sign .rightParen)) ts (.list es)) :
    IsRead length next (⟨.name s, p⟩ :: ⟨.sign .leftParen, q⟩ :: (ts ++ [⟨.sign .rightParen, r⟩]))
      (.primary (.call s es)) := by
  intro n rest stop _
  refine yields_of_succ rfl (fun n => ?_) n
  have args := h .rightParen r rfl (.inl rfl) n rest q.stop
  unfold primary
  refine Yields.afterHere (Yields.afterPeek (Yields.afterSkip ?_))
  refine Yields.last (Yields.afterPeek ?_) (yields_exprFrom _ _)
  exact (Yields.afterSign args).last (yields_pure _)

theorem isRead_index {s : String} {e : Expr} {p q r : Span}
    (h : IsRead length (some (.sign .rightBracket)) ts (.expr e)) :
    IsRead length next
      (⟨.name s, p⟩ :: ⟨.sign .leftBracket, q⟩ :: (ts ++ [⟨.sign .rightBracket, r⟩]))
      (.primary (.index s e)) := by
  intro n rest stop _
  refine yields_of_succ rfl (fun n => ?_) n
  have inner : Yields length (expr n) ts (⟨.sign .rightBracket, r⟩ :: rest) q.stop e :=
    h.yields rfl n rfl
  unfold primary
  refine Yields.afterHere (Yields.afterPeek (Yields.afterSkip ?_))
  refine Yields.last (Yields.afterPeek ?_) (yields_exprFrom _ _)
  refine Yields.last (Yields.afterSign (inner.andThen ?_)) (yields_pure _)
  exact Yields.afterSign (yields_pure _)

theorem isRead_array {es : List Expr} {p q : Span}
    (h : IsRead length (some (.sign .rightBracket)) ts (.list es)) :
    IsRead length next (⟨.sign .leftBracket, p⟩ :: (ts ++ [⟨.sign .rightBracket, q⟩]))
      (.primary (.array es)) := by
  intro n rest stop _
  refine yields_of_succ rfl (fun n => ?_) n
  have list := h .rightBracket q rfl (.inr rfl) n rest p.stop
  unfold primary
  refine Yields.afterHere (Yields.afterPeek (Yields.afterSkip ?_))
  exact list.last (yields_exprFrom _ _)

theorem isRead_parens {e : Expr} {p q : Span}
    (h : IsRead length (some (.sign .rightParen)) ts (.expr e)) :
    IsRead length next (⟨.sign .leftParen, p⟩ :: (ts ++ [⟨.sign .rightParen, q⟩]))
      (.primary e.form) := by
  intro n rest stop _
  refine yields_of_succ rfl (fun n => ?_) n
  have inner : Yields length (expr n) ts (⟨.sign .rightParen, q⟩ :: rest) p.stop e :=
    h.yields rfl n rfl
  unfold primary
  refine Yields.afterHere (Yields.afterPeek ?_)
  refine Yields.last (Yields.afterSign (inner.andThen ?_)) (yields_exprFrom _ _)
  exact Yields.afterSign (yields_pure _)

theorem isRead_valueForm {form : ExprForm} (derives : DerivesExpr true next ts (.valueForm form))
    (h : IsRead length next ts (.valueForm form)) : IsRead length next ts (.primary form) := by
  intro n rest stop hrest
  obtain ⟨k, p, us, rfl, hk⟩ := derives.begins_valueForm
  refine yields_of_succ rfl (fun n => ?_) n
  have read := h n rest stop hrest
  unfold primary
  refine Yields.afterHere (Yields.afterPeek ?_)
  cases k <;> first | exact read | cases hk

theorem isRead_lastItem {e : Expr} (h : IsRead length next ts (.expr e)) :
    IsRead length next ts (.items [e]) := by
  intro ends noComma n rest stop hrest
  refine yields_of_succ rfl (fun n => ?_) n
  unfold items
  refine (h.yields ends n hrest).last (Yields.afterAt ?_)
  rw [ahead_nil, hrest, decide_eq_false noComma]
  exact yields_pure _

theorem isRead_moreItems {e : Expr} {es : List Expr} {p : Span}
    (h : IsRead length (some (.sign .comma)) ts (.expr e))
    (hs : IsRead length next us (.items es)) :
    IsRead length next (ts ++ ⟨.sign .comma, p⟩ :: us) (.items (e :: es)) := by
  intro ends noComma n rest stop hrest
  refine yields_of_succ rfl (fun n => ?_) n
  have first : Yields length (expr n) ts (⟨.sign .comma, p⟩ :: us ++ rest) stop e :=
    h.yields rfl n rfl
  have others := hs ends noComma n rest p.stop hrest
  unfold items
  refine first.andThen (Yields.afterAt ?_)
  simp only [ahead_cons, decide_true, if_true]
  exact Yields.afterSkip (others.last (yields_pure _))

theorem isRead_noItems : IsRead length next [] (.list []) := by
  rintro close p - - n rest stop
  unfold listUntil
  apply Yields.afterAt
  simp only [List.nil_append, ahead_cons, decide_true, if_true]
  exact Yields.afterSign (yields_pure _)

/-- The sign that closes the list does not begin it, so it is read item by item. -/
theorem isRead_someItems {es : List Expr} (derives : DerivesExpr true next ts (.items es))
    (h : IsRead length next ts (.items es)) : IsRead length next ts (.list es) := by
  intro close p hnext hclose n rest stop
  obtain ⟨t, us, rfl, ht⟩ := derives.begins (by simp)
  have open_ : ¬ t.kind = .sign close := by
    intro heq
    rw [heq] at ht
    rcases hclose with rfl | rfl <;> simp [beginsExpr] at ht
  have ends : EndsExpr next ∧ next ≠ some (.sign .comma) := by
    subst hnext
    rcases hclose with rfl | rfl <;> exact ⟨rfl, by simp⟩
  have all := h ends.1 ends.2 n (⟨.sign close, p⟩ :: rest) stop hnext.symm
  unfold listUntil
  apply Yields.afterAt
  simp only [List.cons_append, ahead_cons, Option.some.injEq, open_, decide_false,
    Bool.false_eq_true, if_false]
  exact @Yields.andThen _ _ length _ [⟨.sign close, p⟩] _ _ _ _ _ _ all
    (Yields.afterSign (yields_pure es))

/-- Whatever derives is read, if a name at its end is not taken for a call or an index. -/
theorem isRead_of_derives {phrase : Phrase} (h : DerivesExpr true next ts phrase)
    (ends : EndsName next) : IsRead length next ts phrase := by
  induction h with
  | operand _ ih => exact isRead_operand (ih ends)
  | operation _ hop _ ihl ihr =>
    exact isRead_operation hop (ihl (endsName_of_binaryOperator? hop)) (ihr ends)
  | operator hop _ ih => exact isRead_operator hop (ih ends)
  | primary h ih => exact isRead_primary h (ih ends)
  | number | text | boolean | void =>
    intro n rest stop hrest
    refine yields_of_succ rfl (fun n => ?_) n
    unfold primary
    exact Yields.afterHere (Yields.afterPeek (Yields.afterSkip (yields_exprFrom _ _)))
  | name => exact isRead_name _ _ ends
  | call _ ih => exact isRead_call (ih ⟨by simp, by simp⟩)
  | index _ ih => exact isRead_index (ih ⟨by simp, by simp⟩)
  | array _ ih => exact isRead_array (ih ⟨by simp, by simp⟩)
  | parens _ ih => exact isRead_parens (ih ⟨by simp, by simp⟩)
  | valueForm h ih => exact isRead_valueForm h (ih ends)
  | operandForm hk hends _ ih =>
    intro n rest stop hrest
    exact yields_operand (ih ends) hk (hends rfl) n hrest
  | arrayForm hk hends _ ih =>
    intro n rest stop hrest
    exact yields_namedOperand (ih ends) hk (hends rfl) n hrest
  | size =>
    intro n rest stop hrest
    unfold valueForm
    refine Yields.afterHere (Yields.afterPeek (Yields.afterSkip (Yields.afterName ?_)))
    exact yields_exprFrom _ _
  | lastItem _ ih => exact isRead_lastItem (ih ends)
  | moreItems _ _ ihe ihes => exact isRead_moreItems (ihe ⟨by simp, by simp⟩) (ihes ends)
  | noItems => exact isRead_noItems
  | someItems h ih => exact isRead_someItems h (ih ends)

/-! ## Parts of statements -/

theorem yields_names {ss : List String} (h : DerivesNames ts ss) (n : Nat)
    (hrest : ahead rest none ≠ some (.sign .comma)) : Yields length (names n) ts rest stop ss := by
  induction h generalizing n stop with
  | last =>
    refine yields_of_succ rfl (fun n => ?_) n
    unfold names
    refine Yields.afterName (Yields.afterAt ?_)
    rw [ahead_nil, decide_eq_false hrest]
    exact yields_pure _
  | more _ ih =>
    refine yields_of_succ rfl (fun n => ?_) n
    unfold names
    refine Yields.afterName (Yields.afterAt ?_)
    simp only [ahead_cons, decide_true, if_true]
    exact Yields.afterSkip ((ih n).last (yields_pure _))

theorem yields_params {ss : List String} {p q : Span} (h : DerivesParams ts ss) (n : Nat) :
    Yields length (params (names n)) (⟨.sign .leftParen, p⟩ :: (ts ++ [⟨.sign .rightParen, q⟩]))
      rest stop ss := by
  unfold params
  refine Yields.afterSign (Yields.afterAt ?_)
  cases h with
  | none =>
    simp only [List.nil_append, ahead_cons, decide_true, if_true]
    exact Yields.afterSign (yields_pure _)
  | some h =>
    have all : Yields length (names n) ts ([⟨.sign .rightParen, q⟩] ++ rest) p.stop ss :=
      yields_names h n (by simp)
    have open_ : ahead (ts ++ [⟨.sign .rightParen, q⟩]) (ahead rest none) ≠
        some (.sign .rightParen) := by
      cases h <;> simp
    rw [decide_eq_false open_]
    exact all.andThen (Yields.afterSign (yields_pure _))

/-- An expression in parentheses, and what comes behind. -/
theorem Yields.afterParenthesized {e : Expr} {f : Expr → Reader α} {p q : Span} {v : α} (n : Nat)
    (he : DerivesExpr true (some (.sign .rightParen)) us (.expr e))
    (h : Yields length (f e) ts rest q.stop v) :
    Yields length (parenthesized (expr n) >>= f)
      (⟨.sign .leftParen, p⟩ :: (us ++ ⟨.sign .rightParen, q⟩ :: ts)) rest stop v := by
  have inner : Yields length (expr n) us ([⟨.sign .rightParen, q⟩] ++ (ts ++ rest)) p.stop e :=
    (isRead_of_derives he ⟨by simp, by simp⟩).yields rfl n rfl
  have whole : Yields length (parenthesized (expr n))
      (⟨.sign .leftParen, p⟩ :: (us ++ [⟨.sign .rightParen, q⟩])) (ts ++ rest) stop e :=
    Yields.afterSign (inner.andThen (Yields.afterSign (yields_pure _)))
  have := whole.andThen (by simpa using h)
  simpa using this

/-- How the tokens of statements are read if `next` follows them. -/
def StmtIsRead (length : Nat) (inFunction : Bool) (next : Option Token.Kind) (ts : List Token) :
    Sentence → Prop
  | .form form => EndsStmt next → ∀ n rest stop, ahead rest none = next →
    Yields length (stmt n inFunction) ts rest stop (.at (cover ts) form)
  | .stmt s => EndsStmt next → ∀ n rest stop, ahead rest none = next →
    Yields length (stmt n inFunction) ts rest stop s
  | .stmts ss => next = some (.sign .rightBrace) → ∀ n rest stop, ahead rest none = next →
    Yields length (stmts n inFunction) ts rest stop ss
  | .block ss => ∀ n rest stop, Yields length (block (stmts n inFunction)) ts rest stop ss

variable {inFunction : Bool}

theorem stmtIsRead_form {form : StmtForm}
    (h : EndsStmt next → ∀ n rest stop, ahead rest none = next →
      Yields length (stmt (n + 1) inFunction) ts rest stop (.at (cover ts) form)) :
    StmtIsRead length inFunction next ts (.form form) := by
  intro ends n rest stop hrest
  cases n with
  | zero => exact yields_outOfFuel _
  | succ n => exact h ends n rest stop hrest

theorem yields_stmt_keyword {k : Keyword} {p : Span} {form : StmtForm} {n : Nat}
    (h : Yields length (keywordStatement (expr n) (names n) (stmts n inFunction) (stmts n true)
      inFunction k) (⟨.keyword k, p⟩ :: ts) rest stop form) :
    Yields length (stmt (n + 1) inFunction) (⟨.keyword k, p⟩ :: ts) rest stop
      (.at (cover (⟨.keyword k, p⟩ :: ts)) form) := by
  unfold stmt
  exact Yields.afterHere (Yields.afterPeek (h.last (Or.inr rfl)))

theorem yields_stmt_name {s : String} {p : Span} {form : StmtForm} {n : Nat}
    (h : Yields length (nameStatement (expr n) (items n) s) (⟨.name s, p⟩ :: ts) rest stop form) :
    Yields length (stmt (n + 1) inFunction) (⟨.name s, p⟩ :: ts) rest stop
      (.at (cover (⟨.name s, p⟩ :: ts)) form) := by
  unfold stmt
  exact Yields.afterHere (Yields.afterPeek (h.last (Or.inr rfl)))

/-- The expression at the end of a statement. -/
theorem yields_final {e : Expr} (h : DerivesExpr true next ts (.expr e)) (ends : EndsStmt next)
    (n : Nat) (hrest : ahead rest none = next) : Yields length (expr n) ts rest stop e :=
  (isRead_of_derives h ends.endsName).yields ends.endsExpr n hrest

/-! ## Statements -/

theorem stmtIsRead_branch {cs : List Token} {c : Expr} {ss : List Stmt} {p q r : Span}
    (hc : DerivesExpr true (some (.sign .rightParen)) cs (.expr c))
    (ih : StmtIsRead length inFunction next ts (.block ss)) :
    StmtIsRead length inFunction next
      (⟨.keyword .ifThen, p⟩ :: ⟨.sign .leftParen, q⟩ :: (cs ++ ⟨.sign .rightParen, r⟩ :: ts))
      (.form (.branch c ss none)) := by
  apply stmtIsRead_form
  intro ends n rest stop hrest
  refine yields_stmt_keyword (Yields.afterSkip (Yields.afterParenthesized n hc ?_))
  refine (ih n rest r.stop).last (Yields.afterPeek ?_)
  rw [ahead_nil, hrest, if_neg ends.ne_otherwise]
  exact yields_pure _

theorem stmtIsRead_branchElse {cs : List Token} {c : Expr} {ss ss' : List Stmt}
    {p q r o : Span} (hc : DerivesExpr true (some (.sign .rightParen)) cs (.expr c))
    (ih : StmtIsRead length inFunction (some (.keyword .otherwise)) ts (.block ss))
    (ih' : StmtIsRead length inFunction next us (.block ss')) :
    StmtIsRead length inFunction next
      (⟨.keyword .ifThen, p⟩ :: ⟨.sign .leftParen, q⟩ ::
        (cs ++ ⟨.sign .rightParen, r⟩ :: (ts ++ ⟨.keyword .otherwise, o⟩ :: us)))
      (.form (.branch c ss (some ss'))) := by
  apply stmtIsRead_form
  intro ends n rest stop hrest
  refine yields_stmt_keyword (Yields.afterSkip (Yields.afterParenthesized n hc ?_))
  refine (ih n _ r.stop).andThen (Yields.afterPeek ?_)
  simp only [ahead_cons, if_true]
  exact Yields.afterSkip ((ih' n rest o.stop).last (yields_pure _))

theorem stmtIsRead_loop {s : String} {as bs : List Token} {a b : Expr} {ss : List Stmt}
    {p q r o m l : Span} (ha : DerivesExpr true (some (.sign .comma)) as (.expr a))
    (hb : DerivesExpr true (some (.sign .rightParen)) bs (.expr b))
    (ih : StmtIsRead length inFunction next ts (.block ss)) :
    StmtIsRead length inFunction next
      (⟨.keyword .loop, p⟩ :: ⟨.sign .leftParen, q⟩ :: ⟨.name s, r⟩ :: ⟨.sign .comma, o⟩ ::
        (as ++ ⟨.sign .comma, m⟩ :: (bs ++ ⟨.sign .rightParen, l⟩ :: ts)))
      (.form (.loop s a b ss)) := by
  apply stmtIsRead_form
  intro ends n rest stop hrest
  refine yields_stmt_keyword (Yields.afterSkip (Yields.afterSign (Yields.afterName
    (Yields.afterSign ?_))))
  have first : Yields length (expr n) as
      (⟨.sign .comma, m⟩ :: (bs ++ ⟨.sign .rightParen, l⟩ :: ts) ++ rest) o.stop a :=
    (isRead_of_derives ha ⟨by simp, by simp⟩).yields rfl n rfl
  have last : Yields length (expr n) bs (⟨.sign .rightParen, l⟩ :: ts ++ rest) m.stop b :=
    (isRead_of_derives hb ⟨by simp, by simp⟩).yields rfl n rfl
  refine first.andThen (Yields.afterSign (last.andThen (Yields.afterSign ?_)))
  exact (ih n rest l.stop).last (yields_pure _)

theorem stmtIsRead_while {cs : List Token} {c : Expr} {ss : List Stmt} {p q r : Span}
    (hc : DerivesExpr true (some (.sign .rightParen)) cs (.expr c))
    (ih : StmtIsRead length inFunction next ts (.block ss)) :
    StmtIsRead length inFunction next
      (⟨.keyword .while, p⟩ :: ⟨.sign .leftParen, q⟩ :: (cs ++ ⟨.sign .rightParen, r⟩ :: ts))
      (.form (.while c ss)) := by
  apply stmtIsRead_form
  intro ends n rest stop hrest
  refine yields_stmt_keyword (Yields.afterSkip (Yields.afterParenthesized n hc ?_))
  exact (ih n rest r.stop).last (yields_pure _)

theorem stmtIsRead_function {s : String} {as : List Token} {names : List String}
    {ss : List Stmt} {p q r o : Span} (has : DerivesParams as names)
    (ih : StmtIsRead length true next ts (.block ss)) :
    StmtIsRead length inFunction next
      (⟨.keyword .func, p⟩ :: ⟨.name s, q⟩ :: ⟨.sign .leftParen, r⟩ ::
        (as ++ ⟨.sign .rightParen, o⟩ :: ts)) (.form (.function s names ss)) := by
  apply stmtIsRead_form
  intro ends n rest stop hrest
  refine yields_stmt_keyword (Yields.afterSkip (Yields.afterName ?_))
  have first : Yields length (params (Reader.names n))
      (⟨.sign .leftParen, r⟩ :: (as ++ [⟨.sign .rightParen, o⟩])) (ts ++ rest) q.stop names :=
    yields_params has n
  have body : Yields length (do return StmtForm.function s names (← block (stmts n true)))
      ts rest o.stop (.function s names ss) := (ih n rest o.stop).last (yields_pure _)
  have whole := Yields.andThen (f := fun ss => do
    return StmtForm.function s ss (← block (stmts n true))) first (by simpa using body)
  simpa using whole

theorem stmtIsRead_returnValue {e : Expr} {p : Span}
    (given : omitsValue (ahead ts next) = false) (he : DerivesExpr true next ts (.expr e)) :
    StmtIsRead length true next (⟨.keyword .return, p⟩ :: ts) (.form (.return (some e))) := by
  apply stmtIsRead_form
  intro ends n rest stop hrest
  refine yields_stmt_keyword (Yields.afterSkip (Yields.afterPeek ?_))
  have value : Yields length (do return StmtForm.return (some (← expr n))) ts rest p.stop
      (.return (some e)) := (yields_final he ends n hrest).last (yields_pure _)
  obtain ⟨t, us, rfl, ht⟩ := he.begins (by simp)
  rw [ahead_cons] at given ⊢
  split
  · next h => cases h
  · next h => rw [h] at given; cases given
  · next k h =>
    rw [h] at given
    rw [if_neg (by simpa [omitsValue] using given)]
    exact value
  · exact value

theorem stmtIsRead_returnNothing {p : Span} (omitted : omitsValue next = true) :
    StmtIsRead length true next [⟨.keyword .return, p⟩] (.form (.return none)) := by
  apply stmtIsRead_form
  intro ends n rest stop hrest
  refine yields_stmt_keyword (Yields.afterSkip (Yields.afterPeek ?_))
  rw [ahead_nil, hrest]
  split
  · exact yields_pure _
  · exact yields_pure _
  · next k => rw [if_pos (by simpa [omitsValue] using omitted)]; exact yields_pure _
  · next k _ _ => cases k <;> simp_all [omitsValue]

/-- Whatever the grammar derives as statements is read. -/
theorem stmtIsRead_of_derives {sentence : Sentence}
    (h : DerivesStmt true inFunction next ts sentence) :
    StmtIsRead length inFunction next ts sentence := by
  induction h with
  | @declare inFunction next immutable s ts e p q r he =>
    apply stmtIsRead_form
    intro ends n rest stop hrest
    have value : Yields length (expr n) ts rest r.stop e := yields_final he ends n hrest
    apply yields_stmt_keyword
    cases immutable <;>
      exact Yields.afterSkip (Yields.afterName (Yields.afterSign
        (value.last (yields_pure _))))
  | @print inFunction next channel ts e p he =>
    apply stmtIsRead_form
    intro ends n rest stop hrest
    have value : Yields length (expr n) ts rest p.stop e := yields_final he ends n hrest
    apply yields_stmt_keyword
    cases channel <;> exact Yields.afterSkip (value.last (yields_pure _))
  | branch hc _ ih => exact stmtIsRead_branch hc ih
  | branchElse hc _ _ ih ih' => exact stmtIsRead_branchElse hc ih ih'
  | loop ha hb _ ih => exact stmtIsRead_loop ha hb ih
  | «while» hc _ ih => exact stmtIsRead_while hc ih
  | function has _ ih => exact stmtIsRead_function has ih
  | returnNothing omitted => exact stmtIsRead_returnNothing omitted
  | returnValue given he => exact stmtIsRead_returnValue given he
  | deleteVariable | deleteFunction =>
    apply stmtIsRead_form
    intro _ n rest stop _
    exact yields_stmt_keyword (Yields.afterSkip (Yields.afterName (yields_pure _)))
  | connect =>
    apply stmtIsRead_form
    intro _ n rest stop _
    refine yields_stmt_keyword (Yields.afterSkip (Yields.afterPeek ?_))
    exact Yields.afterSkip (yields_pure _)
  | @async inFunction next ts ss p _ ih =>
    apply stmtIsRead_form
    intro _ n rest stop _
    exact yields_stmt_keyword (Yields.afterSkip ((ih n rest p.stop).last (yields_pure _)))
  | @call inFunction next s ts es p q r hes =>
    apply stmtIsRead_form
    intro _ n rest stop _
    have args : Yields length (listUntil .rightParen (items n))
        (ts ++ [⟨.sign .rightParen, r⟩]) rest q.stop es :=
      isRead_of_derives hes ⟨by simp, by simp⟩ .rightParen r rfl (.inl rfl) n rest q.stop
    refine yields_stmt_name (Yields.afterHere (Yields.afterSkip (Yields.afterPeek ?_)))
    apply (Yields.afterSign args).last
    exact (yields_exprFrom _ _).last (yields_pure _)
  | @index inFunction next s ts e p q r he =>
    apply stmtIsRead_form
    intro _ n rest stop _
    have inner : Yields length (expr n) ts ([⟨.sign .rightBracket, r⟩] ++ rest) q.stop e :=
      (isRead_of_derives he ⟨by simp, by simp⟩).yields rfl n rfl
    refine yields_stmt_name (Yields.afterHere (Yields.afterSkip (Yields.afterPeek ?_)))
    refine Yields.last (Yields.afterSign (inner.andThen ?_))
      ((yields_exprFrom _ _).last (yields_pure _))
    exact Yields.afterSign (yields_pure _)
  | assign he =>
    apply stmtIsRead_form
    intro ends n rest stop hrest
    refine yields_stmt_name (Yields.afterHere (Yields.afterSkip (Yields.afterPeek ?_)))
    exact Yields.afterSkip ((yields_final he ends n hrest).last (yields_pure _))
  | valueForm h =>
    apply stmtIsRead_form
    intro ends n rest stop hrest
    obtain ⟨k, p, us, rfl, hk⟩ := h.begins_valueForm
    have value : Yields length (Reader.valueForm (expr n)) (⟨.keyword k, p⟩ :: us) rest stop _ :=
      isRead_of_derives h ends.endsName n rest stop hrest
    apply yields_stmt_keyword
    cases k <;> first
      | exact value.last (yields_pure _)
      | cases hk
  | stmt _ ih => exact ih
  | nil =>
    rintro rfl n rest stop hrest
    cases n with
    | zero => exact yields_outOfFuel _
    | succ n =>
      unfold stmts
      apply Yields.afterPeek
      rw [ahead_nil, hrest]
      exact yields_pure _
  | @cons inFunction next ts us s ss hs hss ihs ihss =>
    rintro rfl n rest stop hrest
    cases n with
    | zero => exact yields_outOfFuel _
    | succ n =>
      have first := ihs (hss.endsStmt_ahead endsStmt_rightBrace) n (us ++ rest) stop
        (by rw [ahead_append, hrest])
      have others := ihss rfl n rest (lastStop stop ts) hrest
      obtain ⟨t, us', rfl, ht⟩ := hs.begins
      unfold stmts
      apply Yields.afterPeek
      rw [List.cons_append, ahead_cons]
      split
      · next h => cases h
      · next h =>
        rw [Option.some.inj h] at ht
        cases ht
      · exact first.andThen (others.last (yields_pure _))
  | @block inFunction next ts ss p q _ ih =>
    intro n rest stop
    have inner := ih rfl n (⟨.sign .rightBrace, q⟩ :: rest) p.stop rfl
    exact Yields.afterSign (@Yields.andThen _ _ length _ [⟨.sign .rightBrace, q⟩] _ _ _ _ _ _
      inner (Yields.afterSign (yields_pure _)))

/-- A row of statements up to the end of the text is read as a program. -/
theorem yields_program {ss : List Stmt} (h : DerivesStmt true false none ts (.stmts ss)) (n : Nat) :
    Yields length (program n) ts [] stop ss := by
  induction ss generalizing ts n stop with
  | nil =>
    cases h
    cases n with
    | zero => exact yields_outOfFuel _
    | succ n => exact Or.inr rfl
  | cons s ss ih =>
    refine yields_of_succ rfl (fun n => ?_) n
    cases h with
    | @cons _ _ ts us _ _ hs hss =>
      have first : Yields length (stmt n false) ts us stop s :=
        stmtIsRead_of_derives hs (hss.endsStmt_ahead endsStmt_none) n us stop rfl
      obtain ⟨t, us', rfl, ht⟩ := hs.begins
      unfold program
      apply Yields.afterPeek
      exact Yields.andThen (by simpa using first) ((ih hss n).last (yields_pure _))

end Reader

open Grammar

/-- A row of tokens that derives a program is read as that program. -/
theorem parseTokens_complete {ts : List Token} {ss : List Stmt} (length : Nat)
    (h : Program true ts ss) : parseTokens ts (.complete length) = .ok ss := by
  have read : Reader.program (enoughFuel ts.length) (.complete length) ⟨ts, 0⟩ =
      .done ss ⟨[], lastStop 0 ts⟩ := by
    have yields : Reader.Yields length (Reader.program (enoughFuel ts.length)) ts [] 0 ss :=
      Reader.yields_program h _
    rcases yields with hread | hread
    · rw [List.append_nil] at hread
      exact absurd hread (Reader.program_enoughFuel ts _ 0)
    · rwa [List.append_nil] at hread
  unfold parseTokens
  cases ts <;> simp only [read]

end BraceScript
