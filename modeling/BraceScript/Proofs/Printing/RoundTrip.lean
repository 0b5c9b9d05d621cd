-- What the printer writes is read back as the tree that was printed, up to
-- places. Each printed expression is read as itself as long as no operator
-- behind it could go on with it.
import BraceScript.Proofs.Grammar.Parse
import BraceScript.Proofs.Moved
import BraceScript.Proofs.Printing.Written

namespace BraceScript

open Grammar

variable {next : Option Token.Kind} {ts us : List Token} {e : Expr} {form form' : ExprForm}
  {span : Span}

/-! ## Statements where they may stand -/

/-- The form is a keyword with its operands. -/
def ExprForm.isValueForm : ExprForm → Bool
  | .read _ | .append .. | .remove .. | .size _ | .toJson _ | .parseJson _ | .math .. => true
  | .textual .. => true
  | _ => false

/-- The form is a statement by itself. -/
def ExprForm.isStatement : ExprForm → Bool
  | .call .. | .index .. => true
  | form => form.isValueForm

/-- The statement begins with a name, or with the keyword of a form that has a value. -/
def StmtForm.beginsWithValue : StmtForm → Bool
  | .assign .. | .value _ => true
  | _ => false

def StmtForm.returnsNothing : StmtForm → Bool
  | .return none => true
  | _ => false

mutual

/-- A `return` stands in the body of a function, and a statement that is an expression is one
that a statement can be. -/
@[simp] def Stmt.wellPlaced : Bool → Stmt → Bool
  | inFunction, .at _ form => form.wellPlaced inFunction

@[simp] def StmtForm.wellPlaced : Bool → StmtForm → Bool
  | inFunction, .return _ => inFunction
  | _, .value e => e.form.isStatement
  | inFunction, .branch _ ss other =>
    rowWellPlaced inFunction ss && otherWellPlaced inFunction other
  | inFunction, .loop _ _ _ ss | inFunction, .while _ ss | inFunction, .async ss =>
    rowWellPlaced inFunction ss
  | _, .function _ _ ss => rowWellPlaced true ss
  | _, _ => true

/-- Behind a `return` without a value stands no statement that could be read as the value. -/
@[simp] def rowWellPlaced : Bool → List Stmt → Bool
  | _, [] => true
  | inFunction, s :: ss => s.wellPlaced inFunction && rowWellPlaced inFunction ss &&
      !(s.form.returnsNothing && ss.head?.any fun s => s.form.beginsWithValue)

@[simp] def otherWellPlaced : Bool → Option (List Stmt) → Bool
  | _, none => true
  | inFunction, some ss => rowWellPlaced inFunction ss

end

/-! ## Tokens of given kinds -/

theorem map_kind_eq_cons {k : Token.Kind} {ks : List Token.Kind} :
    ts.map Token.kind = k :: ks ↔ ∃ p us, ts = ⟨k, p⟩ :: us ∧ us.map Token.kind = ks := by
  rw [List.map_eq_cons_iff]
  constructor
  · rintro ⟨⟨k, p⟩, us, rfl, rfl, rfl⟩
    exact ⟨p, us, rfl, rfl⟩
  · rintro ⟨p, us, rfl, rfl⟩
    exact ⟨⟨k, p⟩, us, rfl, rfl, rfl⟩

/-! ## Expressions that are read -/

/-- The tokens make up the expression, up to places. Unless it has two operands, they make up an
operand, and if it is a form with a value, they make up one. -/
def Expr.ReadFrom (next : Option Token.Kind) (ts : List Token) (e : Expr) : Prop :=
  ∃ e', e'.bare = e.bare ∧ DerivesExpr true next ts (.expr e') ∧
    (e.isBinary = false → DerivesExpr true next ts (.unary e')) ∧
    (e.form.isValueForm = true → DerivesExpr true next ts (.valueForm e'.form))

/-- Any tokens of its kinds make up the expression, unless what is next goes on with it. -/
def Expr.Readable (e : Expr) : Prop :=
  ∀ next ts, EndsExpr next ∨ e.endsOpen = false → ts.map Token.kind = e.kinds →
    e.ReadFrom next ts

theorem readFrom_of_primary (same : form'.Alike form)
    (derives : DerivesExpr true next ts (.primary form')) (value : form.isValueForm = false) :
    (Expr.at span form).ReadFrom next ts := by
  refine ⟨.at (cover ts) form', same.bare_at _ _, .operand (.primary derives),
    fun _ => .primary derives, fun h => ?_⟩
  exact absurd (value.symm.trans h) (by decide)

theorem readFrom_of_valueForm (same : form'.Alike form)
    (derives : DerivesExpr true next ts (.valueForm form')) :
    (Expr.at span form).ReadFrom next ts :=
  have primary := DerivesExpr.primary (.valueForm derives)
  ⟨.at (cover ts) form', same.bare_at _ _, .operand primary, fun _ => primary, fun _ => derives⟩

/-- A token that is an expression by itself. -/
theorem readable_single {k : Token.Kind} (kinds : form.kinds = [k])
    (rule : ∀ {next} p, DerivesExpr true next [⟨k, p⟩] (.primary form))
    (same : form.Alike form) (value : form.isValueForm = false) : (Expr.at span form).Readable := by
  intro next ts _ h
  rw [Expr.kinds, kinds, map_kind_eq_cons] at h
  obtain ⟨p, us, rfl, hus⟩ := h
  obtain rfl := List.map_eq_nil_iff.1 hus
  exact readFrom_of_primary same (rule p) value

theorem Expr.ReadFrom.inParens (h : e.ReadFrom (some (.sign .rightParen)) us)
    (next : Option Token.Kind) (p q : Span) : ∃ e', e'.bare = e.bare ∧
      DerivesExpr true next (⟨.sign .leftParen, p⟩ :: (us ++ [⟨.sign .rightParen, q⟩]))
        (.unary e') := by
  obtain ⟨e', bare, derives, -, -⟩ := h
  exact ⟨_, (e'.bare_at_form _).trans bare, .primary (.parens derives)⟩

theorem map_kind_parensIf {needed : Bool} {ks : List Token.Kind}
    (h : ts.map Token.kind = parensIf needed ks) :
    (needed = true ∧ ∃ p us q, ts = ⟨.sign .leftParen, p⟩ :: (us ++ [⟨.sign .rightParen, q⟩]) ∧
      us.map Token.kind = ks) ∨ (needed = false ∧ ts.map Token.kind = ks) := by
  unfold parensIf at h
  split at h
  · next needed =>
    simp only [map_kind_eq_cons, List.map_eq_append_iff, List.map_eq_nil_iff] at h
    obtain ⟨p, _, rfl, us, _, rfl, hus, q, _, rfl, rfl⟩ := h
    exact Or.inl ⟨needed, p, us, q, rfl, hus⟩
  · next needed => exact Or.inr ⟨by simpa using needed, h⟩

/-- A right operand, or the operand of a unary operator. -/
theorem Expr.Readable.operand (he : e.Readable)
    (ends : EndsExpr next ∨ (!e.isBinary && e.endsOpen) = false)
    (h : ts.map Token.kind = parensIf e.isBinary e.kinds) :
    ∃ e', e'.bare = e.bare ∧ DerivesExpr true next ts (.unary e') := by
  rcases map_kind_parensIf h with ⟨-, p, us, q, rfl, hus⟩ | ⟨binary, hts⟩
  · exact (he (some (.sign .rightParen)) us (Or.inl rfl) hus).inParens next p q
  · rw [binary] at ends
    obtain ⟨e', bare, -, derives, -⟩ := he next ts (by simpa using ends) hts
    exact ⟨e', bare, derives binary⟩

/-- A left operand. -/
theorem Expr.Readable.left (he : e.Readable) (next : Option Token.Kind)
    (h : ts.map Token.kind = parensIf e.endsOpen e.kinds) :
    ∃ e', e'.bare = e.bare ∧ DerivesExpr true next ts (.expr e') := by
  rcases map_kind_parensIf h with ⟨-, p, us, q, rfl, hus⟩ | ⟨closed, hts⟩
  · have inside := he (some (.sign .rightParen)) us (Or.inl rfl) hus
    obtain ⟨e', bare, derives⟩ := inside.inParens next p q
    exact ⟨e', bare, .operand derives⟩
  · obtain ⟨e', bare, derives, -⟩ := he next ts (Or.inr closed) hts
    exact ⟨e', bare, derives⟩

/-- An expression where no operator follows. -/
theorem Expr.Readable.whole (he : e.Readable) (next : Option Token.Kind) (ends : EndsExpr next)
    (h : ts.map Token.kind = e.kinds) :
    ∃ e', e'.bare = e.bare ∧ DerivesExpr true next ts (.expr e') := by
  obtain ⟨e', bare, derives, -⟩ := he next ts (Or.inl ends) h
  exact ⟨e', bare, derives⟩

theorem readable_binary {op : BinaryOperator} {l r : Expr} (hl : l.Readable) (hr : r.Readable) :
    (Expr.at span (.binary op l r)).Readable := by
  intro next ts ends h
  simp only [Expr.kinds, ExprForm.kinds, map_kind_eq_cons, List.map_eq_append_iff] at h
  obtain ⟨ls, _, rfl, hls, p, rs, rfl, hrs⟩ := h
  obtain ⟨l', barel, left⟩ := hl.left (some (.sign op.sign)) hls
  obtain ⟨r', barer, right⟩ := hr.operand ends hrs
  exact ⟨_, (ExprForm.Alike.binary barel barer).bare_at _ _,
    .operation left op.binaryOperator?_sign right, nofun, nofun⟩

theorem readable_unary {op : UnaryOperator} (he : e.Readable) :
    (Expr.at span (.unary op e)).Readable := by
  intro next ts ends h
  simp only [Expr.kinds, ExprForm.kinds, map_kind_eq_cons] at h
  obtain ⟨p, us, rfl, hus⟩ := h
  obtain ⟨e', bare, operand⟩ := he.operand ends hus
  have derives := DerivesExpr.operator (p := p) op.unaryOperator?_sign operand
  exact ⟨_, (ExprForm.Alike.unary bare).bare_at _ _, .operand derives, fun _ => derives, nofun⟩

theorem readable_index {s : String} (he : e.Readable) :
    (Expr.at span (.index s e)).Readable := by
  intro next ts ends h
  simp only [Expr.kinds, ExprForm.kinds, map_kind_eq_cons, List.map_eq_append_iff,
    List.map_eq_nil_iff] at h
  obtain ⟨p, _, rfl, q, _, rfl, us, _, rfl, hus, r, _, rfl, rfl⟩ := h
  obtain ⟨e', bare, derives⟩ := he.whole (some (.sign .rightBracket)) rfl hus
  exact readFrom_of_primary (.index bare) (.index derives) rfl

/-- A keyword with an operand, which ends where no operator follows. -/
theorem readable_operandForm {k : Keyword} {f : Expr → ExprForm} (hk : operandForm? k = some f)
    (kinds : (f e).kinds = .keyword k :: e.kinds) (ends : (f e).endsOpen = true)
    (same : ∀ e', e'.bare = e.bare → (f e').Alike (f e)) (he : e.Readable) :
    (Expr.at span (f e)).Readable := by
  intro next ts ended h
  rw [Expr.kinds, kinds, map_kind_eq_cons] at h
  rw [Expr.endsOpen, ends] at ended
  obtain ⟨p, us, rfl, hus⟩ := h
  have ended := ended.resolve_right (by decide)
  obtain ⟨e', bare, derives⟩ := he.whole next ended hus
  exact readFrom_of_valueForm (same e' bare) (.operandForm hk (fun _ => ended) derives)

/-- A keyword with the name of an array and an operand. -/
theorem readable_arrayForm {k : Keyword} {f : String → Expr → ExprForm} {s : String}
    (hk : arrayForm? k = some f) (kinds : (f s e).kinds = .keyword k :: .name s :: e.kinds)
    (ends : (f s e).endsOpen = true) (same : ∀ e', e'.bare = e.bare → (f s e').Alike (f s e))
    (he : e.Readable) : (Expr.at span (f s e)).Readable := by
  intro next ts ended h
  rw [Expr.kinds, kinds, map_kind_eq_cons] at h
  rw [Expr.endsOpen, ends] at ended
  obtain ⟨p, rest, rfl, hrest⟩ := h
  obtain ⟨q, us, rfl, hus⟩ := map_kind_eq_cons.1 hrest
  have ended := ended.resolve_right (by decide)
  obtain ⟨e', bare, derives⟩ := he.whole next ended hus
  exact readFrom_of_valueForm (same e' bare) (.arrayForm hk (fun _ => ended) derives)

theorem readable_size {s : String} : (Expr.at span (.size s)).Readable := by
  intro next ts _ h
  simp only [Expr.kinds, ExprForm.kinds, map_kind_eq_cons, List.map_eq_nil_iff] at h
  obtain ⟨p, _, rfl, q, _, rfl, rfl⟩ := h
  exact readFrom_of_valueForm .size .size

/-! ## Lists of expressions -/

/-- Any tokens of their kinds make up the expressions with commas between them. -/
def ItemsReadable (es : List Expr) : Prop :=
  ∀ next ts, EndsExpr next → es ≠ [] → ts.map Token.kind = kindsOfItems es →
    ∃ es', es'.map Expr.bare = es.map Expr.bare ∧ DerivesExpr true next ts (.items es')

theorem itemsReadable_one (he : e.Readable) : ItemsReadable [e] := by
  intro next ts ends _ h
  obtain ⟨e', bare, derives⟩ := he.whole next ends h
  exact ⟨[e'], by simp [bare], .lastItem derives⟩

theorem itemsReadable_more {e₂ : Expr} {es : List Expr} (he : e.Readable)
    (hes : ItemsReadable (e₂ :: es)) : ItemsReadable (e :: e₂ :: es) := by
  intro next ts ends _ h
  simp only [kindsOfItems, map_kind_eq_cons, List.map_eq_append_iff] at h
  obtain ⟨us, _, rfl, hus, p, vs, rfl, hvs⟩ := h
  obtain ⟨e', bare, first⟩ := he.whole (some (.sign .comma)) rfl hus
  obtain ⟨es', bares, rest⟩ := hes next vs ends (by simp) hvs
  exact ⟨e' :: es', by rw [List.map_cons, List.map_cons, bare, bares], .moreItems first rest⟩

theorem ItemsReadable.list {es : List Expr} (hes : ItemsReadable es)
    (next : Option Token.Kind) (ends : EndsExpr next)
    (h : ts.map Token.kind = kindsOfItems es) :
    ∃ es', es'.map Expr.bare = es.map Expr.bare ∧ DerivesExpr true next ts (.list es') := by
  by_cases none : es = []
  · subst none
    obtain rfl := List.map_eq_nil_iff.1 h
    exact ⟨[], rfl, .noItems⟩
  · obtain ⟨es', bares, derives⟩ := hes next ts ends none h
    exact ⟨es', bares, .someItems derives⟩

theorem readable_array {es : List Expr} (hes : ItemsReadable es) :
    (Expr.at span (.array es)).Readable := by
  intro next ts _ h
  simp only [Expr.kinds, ExprForm.kinds, map_kind_eq_cons, List.map_eq_append_iff,
    List.map_eq_nil_iff] at h
  obtain ⟨p, _, rfl, us, _, rfl, hus, q, _, rfl, rfl⟩ := h
  obtain ⟨es', bares, derives⟩ := hes.list (some (.sign .rightBracket)) rfl hus
  exact readFrom_of_primary (.array bares) (.array derives) rfl

theorem readable_call {s : String} {es : List Expr} (hes : ItemsReadable es) :
    (Expr.at span (.call s es)).Readable := by
  intro next ts _ h
  simp only [Expr.kinds, ExprForm.kinds, map_kind_eq_cons, List.map_eq_append_iff,
    List.map_eq_nil_iff] at h
  obtain ⟨p, _, rfl, q, _, rfl, us, _, rfl, hus, r, _, rfl, rfl⟩ := h
  obtain ⟨es', bares, derives⟩ := hes.list (some (.sign .rightParen)) rfl hus
  exact readFrom_of_primary (.call bares) (.call derives) rfl

/-! ## All expressions -/

mutual

/-- Whatever tokens spell a printed expression are read as it. -/
theorem Expr.readable : (e : Expr) → e.Readable
  | .at span form => ExprForm.readable span form

theorem ExprForm.readable (span : Span) : (form : ExprForm) → (Expr.at span form).Readable
  | .number _ => readable_single rfl (fun _ => .number) .number rfl
  | .text _ => readable_single rfl (fun _ => .text) .text rfl
  | .boolean _ => readable_single rfl (fun _ => .boolean) .boolean rfl
  | .void => readable_single rfl (fun _ => .void) .void rfl
  | .name _ => readable_single rfl (fun _ => .name) .name rfl
  | .array es => readable_array (itemsReadable es)
  | .binary _ l r => readable_binary l.readable r.readable
  | .unary _ e => readable_unary e.readable
  | .call _ es => readable_call (itemsReadable es)
  | .index _ e => readable_index e.readable
  | .size _ => readable_size
  | .append _ e => readable_arrayForm rfl rfl rfl (fun _ => .append) e.readable
  | .remove _ e => readable_arrayForm rfl rfl rfl (fun _ => .remove) e.readable
  | .read e => readable_operandForm rfl rfl rfl (fun _ => .read) e.readable
  | .toJson e => readable_operandForm rfl rfl rfl (fun _ => .toJson) e.readable
  | .parseJson e => readable_operandForm rfl rfl rfl (fun _ => .parseJson) e.readable
  | .math _ e => readable_operandForm rfl rfl rfl (fun _ => .math) e.readable
  | .textual _ e => readable_operandForm rfl rfl rfl (fun _ => .textual) e.readable

theorem itemsReadable : (es : List Expr) → ItemsReadable es
  | [] => fun _ _ _ some => absurd rfl some
  | [e] => itemsReadable_one e.readable
  | e :: e₂ :: es => itemsReadable_more e.readable (itemsReadable (e₂ :: es))

end

/-! ## Statements that are read -/

/-- Any tokens of its kinds make up the statement, where it may stand and what is next ends it. -/
def StmtForm.Readable (form : StmtForm) : Prop :=
  ∀ inFunction next ts, form.wellPlaced inFunction = true → EndsStmt next →
    (form.returnsNothing = true → omitsValue next = true) → ts.map Token.kind = form.kinds →
    ∃ form', form'.Alike form ∧ DerivesStmt true inFunction next ts (.form form')

/-- Any tokens of their kinds make up the row of statements, where it may end. -/
def RowReadable (ss : List Stmt) : Prop :=
  ∀ inFunction stop ts, rowWellPlaced inFunction ss = true → omitsValue stop = true →
    ts.map Token.kind = kindsOfStmts ss →
    ∃ ss', ss'.map Stmt.bare = ss.map Stmt.bare ∧ DerivesStmt true inFunction stop ts (.stmts ss')

variable {ss : List Stmt} {inFunction : Bool}

theorem RowReadable.block (hss : RowReadable ss) (next : Option Token.Kind)
    (placed : rowWellPlaced inFunction ss = true)
    (h : ts.map Token.kind = inBraces (kindsOfStmts ss)) :
    ∃ ss', ss'.map Stmt.bare = ss.map Stmt.bare ∧
      DerivesStmt true inFunction next ts (.block ss') := by
  simp only [inBraces, map_kind_eq_cons, List.map_eq_append_iff, List.map_eq_nil_iff] at h
  obtain ⟨p, _, rfl, us, _, rfl, hus, q, _, rfl, rfl⟩ := h
  obtain ⟨ss', bares, derives⟩ := hss _ (some (.sign .rightBrace)) us placed rfl hus
  exact ⟨ss', bares, .block derives⟩

theorem readable_declare {s : String} {immutable : Bool} :
    (StmtForm.declare s e immutable).Readable := by
  intro inFunction next ts _ ends _ h
  simp only [StmtForm.kinds, map_kind_eq_cons] at h
  obtain ⟨p, _, rfl, q, _, rfl, r, us, rfl, hus⟩ := h
  obtain ⟨e', bare, derives⟩ := e.readable.whole next ends.endsExpr hus
  exact ⟨_, .declare bare, .declare derives⟩

theorem readable_assign {s : String} : (StmtForm.assign s e).Readable := by
  intro inFunction next ts _ ends _ h
  simp only [StmtForm.kinds, map_kind_eq_cons] at h
  obtain ⟨p, _, rfl, q, us, rfl, hus⟩ := h
  obtain ⟨e', bare, derives⟩ := e.readable.whole next ends.endsExpr hus
  exact ⟨_, .assign bare, .assign derives⟩

theorem readable_print {channel : Channel} : (StmtForm.print channel e).Readable := by
  intro inFunction next ts _ ends _ h
  simp only [StmtForm.kinds, map_kind_eq_cons] at h
  obtain ⟨p, us, rfl, hus⟩ := h
  obtain ⟨e', bare, derives⟩ := e.readable.whole next ends.endsExpr hus
  exact ⟨_, .print bare, .print derives⟩

theorem readable_branch (hss : RowReadable ss) : (StmtForm.branch e ss none).Readable := by
  intro inFunction next ts placed _ _ h
  simp only [StmtForm.wellPlaced, otherWellPlaced, Bool.and_true] at placed
  simp only [StmtForm.kinds, kindsOfOther, List.append_nil, map_kind_eq_cons,
    List.map_eq_append_iff] at h
  obtain ⟨p, _, rfl, q, _, rfl, cs, _, rfl, hcs, r, us, rfl, hus⟩ := h
  obtain ⟨c', bare, condition⟩ := e.readable.whole (some (.sign .rightParen)) rfl hcs
  obtain ⟨ss', bares, block⟩ := hss.block next placed hus
  exact ⟨_, .branch bare bares rfl, .branch condition block⟩

theorem readable_branchElse {other : List Stmt} (hss : RowReadable ss)
    (hother : RowReadable other) : (StmtForm.branch e ss (some other)).Readable := by
  intro inFunction next ts placed _ _ h
  simp only [StmtForm.wellPlaced, otherWellPlaced, Bool.and_eq_true] at placed
  simp only [StmtForm.kinds, kindsOfOther, map_kind_eq_cons, List.map_eq_append_iff] at h
  obtain ⟨p, _, rfl, q, _, rfl, cs, _, rfl, hcs, r, _, rfl, us, _, rfl, hus, o, vs, rfl, hvs⟩ := h
  obtain ⟨c', bare, condition⟩ := e.readable.whole (some (.sign .rightParen)) rfl hcs
  obtain ⟨ss', bares, block⟩ := hss.block (some (.keyword .otherwise)) placed.1 hus
  obtain ⟨other', bares', block'⟩ := hother.block next placed.2 hvs
  have alike : (StmtForm.branch c' ss' (some other')).Alike (.branch e ss (some other)) :=
    .branch bare bares (congrArg some bares')
  exact ⟨_, alike, .branchElse condition block block'⟩

theorem readable_loop {s : String} {a b : Expr} (hss : RowReadable ss) :
    (StmtForm.loop s a b ss).Readable := by
  intro inFunction next ts placed _ _ h
  simp only [StmtForm.kinds, map_kind_eq_cons, List.map_eq_append_iff] at h
  obtain ⟨p, _, rfl, q, _, rfl, r, _, rfl, o, _, rfl, as, _, rfl, has, m, _, rfl, bs, _, rfl, hbs,
    l, us, rfl, hus⟩ := h
  obtain ⟨a', barea, first⟩ := a.readable.whole (some (.sign .comma)) rfl has
  obtain ⟨b', bareb, last⟩ := b.readable.whole (some (.sign .rightParen)) rfl hbs
  obtain ⟨ss', bares, block⟩ := hss.block next placed hus
  exact ⟨_, .loop barea bareb bares, .loop first last block⟩

theorem readable_while (hss : RowReadable ss) : (StmtForm.while e ss).Readable := by
  intro inFunction next ts placed _ _ h
  simp only [StmtForm.kinds, map_kind_eq_cons, List.map_eq_append_iff] at h
  obtain ⟨p, _, rfl, q, _, rfl, cs, _, rfl, hcs, r, us, rfl, hus⟩ := h
  obtain ⟨c', bare, condition⟩ := e.readable.whole (some (.sign .rightParen)) rfl hcs
  obtain ⟨ss', bares, block⟩ := hss.block next placed hus
  exact ⟨_, .while bare bares, .while condition block⟩

theorem derivesNames_of_kinds {ss : List String} (some : ss ≠ [])
    (h : ts.map Token.kind = kindsOfNames ss) : DerivesNames ts ss := by
  induction ss generalizing ts with
  | nil => exact absurd rfl some
  | cons s ss ih =>
    cases ss with
    | nil =>
      simp only [kindsOfNames, map_kind_eq_cons, List.map_eq_nil_iff] at h
      obtain ⟨p, _, rfl, rfl⟩ := h
      exact .last
    | cons s₂ ss =>
      simp only [kindsOfNames, map_kind_eq_cons] at h
      obtain ⟨p, _, rfl, q, us, rfl, hus⟩ := h
      exact .more (ih (by simp) hus)

theorem derivesParams_of_kinds {ss : List String} (h : ts.map Token.kind = kindsOfNames ss) :
    DerivesParams ts ss := by
  by_cases none : ss = []
  · subst none
    obtain rfl := List.map_eq_nil_iff.1 h
    exact .none
  · exact .some (derivesNames_of_kinds none h)

theorem readable_function {s : String} {params : List String} (hss : RowReadable ss) :
    (StmtForm.function s params ss).Readable := by
  intro inFunction next ts placed _ _ h
  simp only [StmtForm.kinds, map_kind_eq_cons, List.map_eq_append_iff] at h
  obtain ⟨p, _, rfl, q, _, rfl, r, _, rfl, as, _, rfl, has, o, us, rfl, hus⟩ := h
  obtain ⟨ss', bares, block⟩ := hss.block next placed hus
  exact ⟨_, .function bares, .function (derivesParams_of_kinds has) block⟩

theorem readable_returnNothing : (StmtForm.return none).Readable := by
  intro inFunction next ts placed _ omits h
  obtain rfl : inFunction = true := placed
  simp only [StmtForm.kinds, map_kind_eq_cons, List.map_eq_nil_iff] at h
  obtain ⟨p, _, rfl, rfl⟩ := h
  exact ⟨_, .return rfl, .returnNothing (omits rfl)⟩

theorem readable_returnValue : (StmtForm.return (some e)).Readable := by
  intro inFunction next ts placed ends _ h
  obtain rfl : inFunction = true := placed
  simp only [StmtForm.kinds, map_kind_eq_cons] at h
  obtain ⟨p, us, rfl, hus⟩ := h
  obtain ⟨e', bare, derives⟩ := e.readable.whole next ends.endsExpr hus
  obtain ⟨t, vs, rfl, begins⟩ := derives.begins (by simp)
  have alike : (StmtForm.return (some e')).Alike (.return (some e)) :=
    .return (congrArg some bare)
  exact ⟨_, alike, .returnValue (omitsValue_of_beginsExpr begins) derives⟩

/-- A keyword with a single token behind it is a statement by itself. -/
theorem readable_pair {form : StmtForm} {k k' : Token.Kind} (kinds : form.kinds = [k, k'])
    (rule : ∀ {inFunction next} p q,
      DerivesStmt true inFunction next [⟨k, p⟩, ⟨k', q⟩] (.form form))
    (same : form.Alike form) : form.Readable := by
  intro inFunction next ts _ _ _ h
  simp only [kinds, map_kind_eq_cons, List.map_eq_nil_iff] at h
  obtain ⟨p, _, rfl, q, _, rfl, rfl⟩ := h
  exact ⟨form, same, rule p q⟩

theorem readable_async (hss : RowReadable ss) : (StmtForm.async ss).Readable := by
  intro inFunction next ts placed _ _ h
  simp only [StmtForm.kinds, map_kind_eq_cons] at h
  obtain ⟨p, us, rfl, hus⟩ := h
  obtain ⟨ss', bares, block⟩ := hss.block next placed hus
  exact ⟨_, .async bares, .async block⟩

theorem readable_callStmt {s : String} {es : List Expr} :
    (StmtForm.value (.at span (.call s es))).Readable := by
  intro inFunction next ts _ _ _ h
  simp only [StmtForm.kinds, Expr.kinds, ExprForm.kinds, map_kind_eq_cons,
    List.map_eq_append_iff, List.map_eq_nil_iff] at h
  obtain ⟨p, _, rfl, q, _, rfl, us, _, rfl, hus, r, _, rfl, rfl⟩ := h
  obtain ⟨es', bares, derives⟩ := (itemsReadable es).list (some (.sign .rightParen)) rfl hus
  exact ⟨_, .value ((ExprForm.Alike.call bares).bare_at _ _), .call derives⟩

theorem readable_indexStmt {s : String} :
    (StmtForm.value (.at span (.index s e))).Readable := by
  intro inFunction next ts _ _ _ h
  simp only [StmtForm.kinds, Expr.kinds, ExprForm.kinds, map_kind_eq_cons,
    List.map_eq_append_iff, List.map_eq_nil_iff] at h
  obtain ⟨p, _, rfl, q, _, rfl, us, _, rfl, hus, r, _, rfl, rfl⟩ := h
  obtain ⟨e', bare, derives⟩ := e.readable.whole (some (.sign .rightBracket)) rfl hus
  exact ⟨_, .value ((ExprForm.Alike.index bare).bare_at _ _), .index derives⟩

theorem readable_valueFormStmt (value : e.form.isValueForm = true) :
    (StmtForm.value e).Readable := by
  intro inFunction next ts _ ends _ h
  obtain ⟨e', bare, -, -, derives⟩ := e.readable next ts (Or.inl ends.endsExpr) h
  exact ⟨_, .value ((e'.bare_at_form _).trans bare), .valueForm (derives value)⟩

theorem ExprForm.isStatement_cases (h : form.isStatement = true) :
    (∃ s es, form = .call s es) ∨ (∃ s e, form = .index s e) ∨ form.isValueForm = true := by
  cases form <;> simp_all [isStatement, isValueForm]

/-- An expression that is a statement: a call, an index or a keyword form. -/
theorem readable_value : (StmtForm.value e).Readable := by
  intro inFunction next ts placed
  obtain ⟨span, form⟩ := e
  rcases ExprForm.isStatement_cases placed with ⟨s, es, rfl⟩ | ⟨s, e, rfl⟩ | value
  · exact readable_callStmt inFunction next ts placed
  · exact readable_indexStmt inFunction next ts placed
  · exact readable_valueFormStmt value inFunction next ts placed

/-! ## Rows of statements -/

theorem rowReadable_nil : RowReadable [] := by
  intro inFunction stop ts _ _ h
  obtain rfl := List.map_eq_nil_iff.1 h
  exact ⟨[], rfl, .nil⟩

/-- A statement that begins with no value begins with a keyword of its own. -/
theorem StmtForm.exists_keyword {form : StmtForm} (h : form.beginsWithValue = false) :
    ∃ k ks, form.kinds = .keyword k :: ks ∧ k.onlyBeginsStatement = true := by
  cases form with
  | assign | value => cases h
  | declare _ _ immutable => cases immutable <;> exact ⟨_, _, rfl, rfl⟩
  | print channel => cases channel <;> exact ⟨_, _, rfl, rfl⟩
  | «return» e => cases e <;> exact ⟨_, _, rfl, rfl⟩
  | _ => exact ⟨_, _, rfl, rfl⟩

/-- Where a row has no statement that begins with a value in front, a `return` needs none. -/
theorem omitsValue_ahead {stop : Option Token.Kind} (omits : omitsValue stop = true)
    (first : (ss.head?.any fun s => s.form.beginsWithValue) = false)
    (h : ts.map Token.kind = kindsOfStmts ss) : omitsValue (ahead ts stop) = true := by
  cases ss with
  | nil =>
    obtain rfl := List.map_eq_nil_iff.1 h
    exact omits
  | cons s ss =>
    obtain ⟨span, form⟩ := s
    have keyword : form.beginsWithValue = false := first
    obtain ⟨k, ks, kinds, only⟩ := StmtForm.exists_keyword keyword
    rw [kindsOfStmts, Stmt.kinds, kinds, List.cons_append, map_kind_eq_cons] at h
    obtain ⟨p, us, rfl, -⟩ := h
    exact only

theorem rowReadable_cons {form : StmtForm} (hs : form.Readable) (hss : RowReadable ss) :
    RowReadable (.at span form :: ss) := by
  intro inFunction stop ts placed omits h
  simp only [rowWellPlaced, Stmt.wellPlaced, Bool.and_eq_true, Bool.not_eq_true'] at placed
  obtain ⟨⟨first, more⟩, apart⟩ := placed
  simp only [kindsOfStmts, Stmt.kinds, List.map_eq_append_iff] at h
  obtain ⟨us, vs, rfl, hus, hvs⟩ := h
  obtain ⟨ss', bares, rest⟩ := hss inFunction stop vs more omits hvs
  have ends := rest.endsStmt_ahead (endsStmt_of_omitsValue omits)
  obtain ⟨form', alike, derives⟩ := hs inFunction (ahead vs stop) us first ends
    (fun nothing => omitsValue_ahead omits (by simpa [Stmt.form, nothing] using apart) hvs) hus
  exact ⟨.at (cover us) form' :: ss', by
    rw [List.map_cons, List.map_cons, alike.bare_at _ span, bares], .cons (.stmt derives) rest⟩

/-! ## All statements -/

mutual

/-- Whatever tokens spell a printed statement are read as it. -/
theorem StmtForm.readable : (form : StmtForm) → form.Readable
  | .declare .. => readable_declare
  | .assign .. => readable_assign
  | .print .. => readable_print
  | .branch _ ss none => readable_branch (rowReadable ss)
  | .branch _ ss (some other) => readable_branchElse (rowReadable ss) (rowReadable other)
  | .loop _ _ _ ss => readable_loop (rowReadable ss)
  | .while _ ss => readable_while (rowReadable ss)
  | .function _ _ ss => readable_function (rowReadable ss)
  | .return none => readable_returnNothing
  | .return (some _) => readable_returnValue
  | .deleteVariable _ => readable_pair rfl (fun _ _ => .deleteVariable) .deleteVariable
  | .deleteFunction _ => readable_pair rfl (fun _ _ => .deleteFunction) .deleteFunction
  | .connect _ => readable_pair rfl (fun _ _ => .connect) .connect
  | .async ss => readable_async (rowReadable ss)
  | .value _ => readable_value

theorem rowReadable : (ss : List Stmt) → RowReadable ss
  | [] => rowReadable_nil
  | .at _ form :: ss => rowReadable_cons form.readable (rowReadable ss)

end

/-- A program is read back from what the printer writes, up to places, if its names are
identifiers, its texts lack one of the quotes and its numbers have no sign, if its statements
stand where they may, and if the text of each of its numbers reads as that number. -/
theorem a_printed_program_is_read_back {ss : List Stmt}
    (writable : ∀ k ∈ kindsOfStmts ss, k.isWritable = true)
    (placed : rowWellPlaced false ss = true)
    (numbers : ∀ k ∈ kindsOfStmts ss, k.ReadsBack) :
    ∃ ss', parse (printed ss) = .ok ss' ∧ ss'.map Stmt.bare = ss.map Stmt.bare := by
  obtain ⟨ts, hts, kinds⟩ := tokens_printed writable numbers
  obtain ⟨ss', bares, derives⟩ := rowReadable ss false none ts placed rfl kinds
  exact ⟨ss', (parse_eq_ok_iff _ _).2 ⟨ts, hts, derives⟩, bares⟩

/-- A left operand that ends open, a right one that has two operands itself, and a text with a
quote in it. -/
theorem a_declaration_with_two_kinds_of_parentheses :
    let here := Span.point 0
    let number (whole : List Char) : Expr := .at here (.number (Number.ofDigits whole []))
    let file : Expr := .at here (.read (.at here (.text "\x22")))
    let sum : Expr := .at here (.binary .add (number ['1']) (number ['2']))
    let ss : List Stmt := [.at here (.declare "x" (.at here (.binary .sub file sum)) false)]
    ∃ ss', parse "let x = ( read '\x22' ) - ( 1 + 2 )" = .ok ss' ∧
      ss'.map Stmt.bare = ss.map Stmt.bare := by
  intro here number file sum ss
  have text : printed ss = "let x = ( read '\x22' ) - ( 1 + 2 )" := by decide +kernel
  obtain ⟨ss', read, bares⟩ := @a_printed_program_is_read_back ss (by decide +kernel)
    (by decide +kernel) (by decide +kernel)
  exact ⟨ss', text ▸ read, bares⟩

end BraceScript
