-- The rows of tokens that make up a phrase, as languages. A rule of the
-- grammar then says that one language lies within another one; which trees the
-- rows have, and which operands are long, does not matter here.
import BraceScript.Proofs.Grammar.Rows
import Mathlib

namespace BraceScript

namespace Grammar

variable {α : Type} {D D' : Language Token} {k : Token.Kind} {inFunction : Bool}
  {next : Option Token.Kind}

/-! ## Languages -/

/-- The rows of a single token of the given kind. -/
def single (k : Token.Kind) : Language Token := {ts | ∃ p, ts = [⟨k, p⟩]}

/-- The rows of a single name. -/
def singleName : Language Token := {ts | ∃ s p, ts = [⟨.name s, p⟩]}

/-- The rows of a single text. -/
def singleText : Language Token := {ts | ∃ s p, ts = [⟨.text s, p⟩]}

def inParens (D : Language Token) : Language Token :=
  single (.sign .leftParen) * (D * single (.sign .rightParen))

def inBrackets (D : Language Token) : Language Token :=
  single (.sign .leftBracket) * (D * single (.sign .rightBracket))

/-- The rows that make up a phrase, whatever is next. -/
def phrases (phrase : α → Phrase) : Language Token :=
  {ts | ∃ v, ∀ next, DerivesExpr false next ts (phrase v)}

/-- What can stand behind the tokens in a row of the language. -/
def behind (ts : List Token) (D : Language Token) : Language Token := {us | ts ++ us ∈ D}

@[simp] theorem mem_behind {ts us : List Token} : us ∈ behind ts D ↔ ts ++ us ∈ D := Iff.rfl

/-- The rows of operators and operands that can stand behind any expression. -/
def operationRows : Language Token :=
  {us | ∀ ts ∈ phrases .expr, ts ++ us ∈ phrases .expr}

/-- The rows of names with commas between them. -/
def nameRows : Language Token := {ts | ∃ ss, DerivesNames ts ss}

/-- The rows that can stand between the parentheses of a definition. -/
def paramRows : Language Token := {ts | ∃ ss, DerivesParams ts ss}

/-- The rows that make up a statement with the given token next. -/
def forms (inFunction : Bool) (next : Option Token.Kind) : Language Token :=
  {ts | ∃ form, DerivesStmt false inFunction next ts (.form form)}

/-- The rows that make up a row of statements with the given token next. -/
def stmtRows (inFunction : Bool) (next : Option Token.Kind) : Language Token :=
  {ts | ∃ ss, DerivesStmt false inFunction next ts (.stmts ss)}

/-- The rows that make up a block, whatever is next. -/
def blocks (inFunction : Bool) : Language Token :=
  {ts | ∃ ss, ∀ next, DerivesStmt false inFunction next ts (.block ss)}

/-! ## All of them have rows -/

@[simp] theorem nonempty_mul : (D * D').Nonempty ↔ D.Nonempty ∧ D'.Nonempty :=
  Set.image2_nonempty_iff

@[simp] theorem nonempty_add : (D + D').Nonempty ↔ D.Nonempty ∨ D'.Nonempty := Set.union_nonempty

@[simp] theorem nonempty_one : (1 : Language Token).Nonempty := ⟨[], rfl⟩

@[simp] theorem nonempty_single : (single k).Nonempty := ⟨[⟨k, Span.point 0⟩], _, rfl⟩

@[simp] theorem nonempty_singleName : singleName.Nonempty :=
  ⟨[⟨.name "", Span.point 0⟩], _, _, rfl⟩

@[simp] theorem nonempty_singleText : singleText.Nonempty :=
  ⟨[⟨.text "", Span.point 0⟩], _, _, rfl⟩

@[simp] theorem nonempty_inParens : (inParens D).Nonempty ↔ D.Nonempty := by
  simp [inParens]

@[simp] theorem nonempty_inBrackets : (inBrackets D).Nonempty ↔ D.Nonempty := by
  simp [inBrackets]

@[simp] theorem nonempty_expr : (phrases .expr).Nonempty :=
  ⟨[⟨.keyword .void, Span.point 0⟩], _, fun _ => .operand (.primary .void)⟩

@[simp] theorem nonempty_unary : (phrases .unary).Nonempty :=
  ⟨[⟨.keyword .void, Span.point 0⟩], _, fun _ => .primary .void⟩

@[simp] theorem nonempty_primary : (phrases .primary).Nonempty :=
  ⟨[⟨.keyword .void, Span.point 0⟩], _, fun _ => .void⟩

@[simp] theorem nonempty_valueForm : (phrases .valueForm).Nonempty :=
  ⟨[⟨.keyword .arrsize, Span.point 0⟩, ⟨.name "", Span.point 0⟩], _, fun _ => .size⟩

@[simp] theorem nonempty_items : (phrases .items).Nonempty :=
  ⟨[⟨.keyword .void, Span.point 0⟩], _, fun _ => .lastItem (.operand (.primary .void))⟩

@[simp] theorem nonempty_list : (phrases .list).Nonempty := ⟨[], _, fun _ => .noItems⟩

@[simp] theorem nonempty_nameRows : nameRows.Nonempty :=
  ⟨[⟨.name "", Span.point 0⟩], _, .last⟩

@[simp] theorem nonempty_paramRows : paramRows.Nonempty := ⟨[], _, .none⟩

@[simp] theorem nil_mem_stmtRows : [] ∈ stmtRows inFunction next := ⟨_, .nil⟩

@[simp] theorem nonempty_stmtRows : (stmtRows inFunction next).Nonempty := ⟨[], nil_mem_stmtRows⟩

@[simp] theorem nil_mem_operationRows : [] ∈ operationRows := fun ts hts => by simpa using hts

@[simp] theorem nonempty_operationRows : operationRows.Nonempty := ⟨[], nil_mem_operationRows⟩

@[simp] theorem nonempty_blocks : (blocks inFunction).Nonempty :=
  ⟨[⟨.sign .leftBrace, Span.point 0⟩, ⟨.sign .rightBrace, Span.point 0⟩], _, fun _ => .block .nil⟩

@[simp] theorem nonempty_forms : (forms inFunction next).Nonempty :=
  ⟨[⟨.keyword .delvar, Span.point 0⟩, ⟨.name "", Span.point 0⟩], _, .deleteVariable⟩

/-! ## Expressions -/

theorem expr_rule : phrases .unary * operationRows ≤ phrases .expr := by
  rintro _ ⟨ts, ⟨e, he⟩, us, hus, rfl⟩
  exact hus ts ⟨e, fun _ => .operand (he _)⟩

theorem operation_rule {op : BinaryOperator} (h : k.binaryOperator? = some op) :
    single k * (phrases .unary * operationRows) ≤ operationRows := by
  rintro _ ⟨_, ⟨p, rfl⟩, _, ⟨rs, ⟨r, hr⟩, us, hus, rfl⟩, rfl⟩ ls ⟨l, hl⟩
  have applied := hus _ ⟨_, fun next => .operation (p := p) (hl _) h (hr next)⟩
  simpa using applied

theorem operator_rule {op : UnaryOperator} (h : k.unaryOperator? = some op) :
    single k * phrases .unary ≤ phrases .unary := by
  rintro _ ⟨_, ⟨p, rfl⟩, ts, ⟨e, he⟩, rfl⟩
  exact ⟨_, fun _ => .operator h (he _)⟩

theorem primary_rule : phrases .primary ≤ phrases .unary := by
  rintro ts ⟨form, h⟩
  exact ⟨_, fun _ => .primary (h _)⟩

/-- A token that is an expression by itself. -/
theorem token_rule {form : ExprForm}
    (rule : ∀ {next} p, DerivesExpr false next [⟨k, p⟩] (.primary form)) :
    single k ≤ phrases .primary := by
  rintro _ ⟨p, rfl⟩
  exact ⟨_, fun _ => rule p⟩

theorem call_rule (s : String) :
    single (.name s) * inParens (phrases .list) ≤ phrases .primary := by
  rintro _ ⟨_, ⟨p, rfl⟩, _, ⟨_, ⟨q, rfl⟩, _, ⟨ts, ⟨es, hes⟩, _, ⟨r, rfl⟩, rfl⟩, rfl⟩, rfl⟩
  exact ⟨_, fun _ => .call (hes _)⟩

theorem index_rule (s : String) :
    single (.name s) * inBrackets (phrases .expr) ≤ phrases .primary := by
  rintro _ ⟨_, ⟨p, rfl⟩, _, ⟨_, ⟨q, rfl⟩, _, ⟨ts, ⟨e, he⟩, _, ⟨r, rfl⟩, rfl⟩, rfl⟩, rfl⟩
  exact ⟨_, fun _ => .index (he _)⟩

/-- A name may be called or indexed. -/
theorem nameTail_rule (s : String) :
    single (.name s) * (1 + (inParens (phrases .list) + inBrackets (phrases .expr))) ≤
      phrases .primary := by
  rw [mul_add, mul_add, mul_one]
  exact add_le (token_rule fun _ => .name) (add_le (call_rule s) (index_rule s))

theorem array_rule : inBrackets (phrases .list) ≤ phrases .primary := by
  rintro _ ⟨_, ⟨p, rfl⟩, _, ⟨ts, ⟨es, hes⟩, _, ⟨q, rfl⟩, rfl⟩, rfl⟩
  exact ⟨_, fun _ => .array (hes _)⟩

theorem parens_rule : inParens (phrases .expr) ≤ phrases .primary := by
  rintro _ ⟨_, ⟨p, rfl⟩, _, ⟨ts, ⟨e, he⟩, _, ⟨q, rfl⟩, rfl⟩, rfl⟩
  exact ⟨_, fun _ => .parens (he _)⟩

theorem valueForm_rule : phrases .valueForm ≤ phrases .primary := by
  rintro ts ⟨form, h⟩
  exact ⟨_, fun _ => .valueForm (h _)⟩

theorem operandForm_rule {k : Keyword} {form : Expr → ExprForm} (h : operandForm? k = some form) :
    single (.keyword k) * phrases .expr ≤ phrases .valueForm := by
  rintro _ ⟨_, ⟨p, rfl⟩, ts, ⟨e, he⟩, rfl⟩
  exact ⟨_, fun _ => .operandForm h nofun (he _)⟩

theorem arrayForm_rule {k : Keyword} {form : String → Expr → ExprForm}
    (h : arrayForm? k = some form) :
    single (.keyword k) * (singleName * phrases .expr) ≤ phrases .valueForm := by
  rintro _ ⟨_, ⟨p, rfl⟩, _, ⟨_, ⟨s, q, rfl⟩, ts, ⟨e, he⟩, rfl⟩, rfl⟩
  exact ⟨_, fun _ => .arrayForm h nofun (he _)⟩

theorem size_rule : single (.keyword .arrsize) * singleName ≤ phrases .valueForm := by
  rintro _ ⟨_, ⟨p, rfl⟩, _, ⟨s, q, rfl⟩, rfl⟩
  exact ⟨_, fun _ => .size⟩

theorem items_rule :
    phrases .expr * (1 + single (.sign .comma) * phrases .items) ≤ phrases .items := by
  rintro _ ⟨ts, ⟨e, he⟩, _, rfl | ⟨_, ⟨p, rfl⟩, us, ⟨es, hes⟩, rfl⟩, rfl⟩
  · exact ⟨_, fun _ => by simpa using .lastItem (he _)⟩
  · exact ⟨_, fun _ => .moreItems (he _) (hes _)⟩

theorem noItems_rule : 1 ≤ phrases .list := by
  rintro _ rfl
  exact ⟨_, fun _ => .noItems⟩

theorem someItems_rule : phrases .items ≤ phrases .list := by
  rintro ts ⟨es, hes⟩
  exact ⟨_, fun _ => .someItems (hes _)⟩

/-! ## Names -/

theorem names_rule : singleName * (1 + single (.sign .comma) * nameRows) ≤ nameRows := by
  rintro _ ⟨_, ⟨s, p, rfl⟩, _, rfl | ⟨_, ⟨q, rfl⟩, ts, ⟨ss, h⟩, rfl⟩, rfl⟩
  · exact ⟨_, .last⟩
  · exact ⟨_, .more h⟩

theorem noParams_rule : 1 ≤ paramRows := by
  rintro _ rfl
  exact ⟨_, .none⟩

theorem someParams_rule : nameRows ≤ paramRows := by
  rintro ts ⟨ss, h⟩
  exact ⟨_, .some h⟩

/-! ## Statements -/

theorem declare_rule (immutable : Bool) :
    single (.keyword (declarer immutable)) *
      (singleName * (single (.sign .assign) * phrases .expr)) ≤ forms inFunction next := by
  rintro _ ⟨_, ⟨p, rfl⟩, _, ⟨_, ⟨s, q, rfl⟩, _, ⟨_, ⟨r, rfl⟩, ts, ⟨e, he⟩, rfl⟩, rfl⟩, rfl⟩
  exact ⟨_, .declare (he _)⟩

theorem print_rule (channel : Channel) :
    single (.keyword (printer channel)) * phrases .expr ≤ forms inFunction next := by
  rintro _ ⟨_, ⟨p, rfl⟩, ts, ⟨e, he⟩, rfl⟩
  exact ⟨_, .print (he _)⟩

theorem branch_rule :
    single (.keyword .ifThen) * (inParens (phrases .expr) *
      (blocks inFunction * (1 + single (.keyword .otherwise) * blocks inFunction))) ≤
      forms inFunction next := by
  rintro _ ⟨_, ⟨p, rfl⟩, _, ⟨_, ⟨_, ⟨q, rfl⟩, _, ⟨cs, ⟨c, hc⟩, _, ⟨r, rfl⟩, rfl⟩, rfl⟩,
    _, ⟨ts, ⟨ss, hss⟩, _, rfl | ⟨_, ⟨o, rfl⟩, us, ⟨ss', hss'⟩, rfl⟩, rfl⟩, rfl⟩, rfl⟩
  · exact ⟨_, by simpa using DerivesStmt.branch (p := p) (q := q) (r := r) (hc _) (hss next)⟩
  · exact ⟨_, by simpa using
      DerivesStmt.branchElse (p := p) (q := q) (r := r) (o := o) (hc _) (hss _) (hss' next)⟩

theorem loop_rule :
    single (.keyword .loop) * (single (.sign .leftParen) * (singleName *
      (single (.sign .comma) * (phrases .expr * (single (.sign .comma) * (phrases .expr *
      (single (.sign .rightParen) * blocks inFunction))))))) ≤ forms inFunction next := by
  rintro _ ⟨_, ⟨p, rfl⟩, _, ⟨_, ⟨q, rfl⟩, _, ⟨_, ⟨s, r, rfl⟩, _, ⟨_, ⟨o, rfl⟩, _, ⟨as, ⟨a, ha⟩,
    _, ⟨_, ⟨m, rfl⟩, _, ⟨bs, ⟨b, hb⟩, _, ⟨_, ⟨l, rfl⟩, ts, ⟨ss, hss⟩, rfl⟩, rfl⟩, rfl⟩, rfl⟩,
    rfl⟩, rfl⟩, rfl⟩, rfl⟩
  exact ⟨_, .loop (ha _) (hb _) (hss _)⟩

theorem while_rule :
    single (.keyword .while) * (inParens (phrases .expr) * blocks inFunction) ≤
      forms inFunction next := by
  rintro _ ⟨_, ⟨p, rfl⟩, _, ⟨_, ⟨_, ⟨q, rfl⟩, _, ⟨cs, ⟨c, hc⟩, _, ⟨r, rfl⟩, rfl⟩, rfl⟩,
    ts, ⟨ss, hss⟩, rfl⟩, rfl⟩
  exact ⟨_, by simpa using DerivesStmt.while (p := p) (q := q) (r := r) (hc _) (hss next)⟩

theorem function_rule :
    single (.keyword .func) * (singleName * (inParens paramRows * blocks true)) ≤
      forms inFunction next := by
  rintro _ ⟨_, ⟨p, rfl⟩, _, ⟨_, ⟨s, q, rfl⟩, _, ⟨_, ⟨_, ⟨r, rfl⟩, _, ⟨as, ⟨params, has⟩,
    _, ⟨o, rfl⟩, rfl⟩, rfl⟩, ts, ⟨ss, hss⟩, rfl⟩, rfl⟩, rfl⟩
  exact ⟨_, by simpa using
    DerivesStmt.function (p := p) (q := q) (r := r) (o := o) has (hss next)⟩

theorem returnNothing_rule (omitted : omitsValue next = true) :
    single (.keyword .return) ≤ forms true next := by
  rintro _ ⟨p, rfl⟩
  exact ⟨_, .returnNothing omitted⟩

theorem returnValue_rule : single (.keyword .return) * phrases .expr ≤ forms true next := by
  rintro _ ⟨_, ⟨p, rfl⟩, ts, ⟨e, he⟩, rfl⟩
  obtain ⟨t, us, rfl, begins⟩ := (he next).begins (by simp)
  exact ⟨_, .returnValue (omitsValue_of_beginsExpr begins) (he _)⟩

/-- A keyword that deletes what is named behind it. -/
theorem deletion_rule {k : Keyword} {form : String → StmtForm}
    (rule : ∀ {s} p q,
      DerivesStmt false inFunction next [⟨.keyword k, p⟩, ⟨.name s, q⟩] (.form (form s))) :
    single (.keyword k) * singleName ≤ forms inFunction next := by
  rintro _ ⟨_, ⟨p, rfl⟩, _, ⟨s, q, rfl⟩, rfl⟩
  exact ⟨_, rule p q⟩

theorem connect_rule : single (.keyword .connect) * singleText ≤ forms inFunction next := by
  rintro _ ⟨_, ⟨p, rfl⟩, _, ⟨s, q, rfl⟩, rfl⟩
  exact ⟨_, .connect⟩

theorem async_rule : single (.keyword .async) * blocks inFunction ≤ forms inFunction next := by
  rintro _ ⟨_, ⟨p, rfl⟩, ts, ⟨ss, hss⟩, rfl⟩
  exact ⟨_, .async (hss _)⟩

theorem callStmt_rule (s : String) :
    single (.name s) * inParens (phrases .list) ≤ forms inFunction next := by
  rintro _ ⟨_, ⟨p, rfl⟩, _, ⟨_, ⟨q, rfl⟩, _, ⟨ts, ⟨es, hes⟩, _, ⟨r, rfl⟩, rfl⟩, rfl⟩, rfl⟩
  exact ⟨_, .call (hes _)⟩

theorem indexStmt_rule (s : String) :
    single (.name s) * inBrackets (phrases .expr) ≤ forms inFunction next := by
  rintro _ ⟨_, ⟨p, rfl⟩, _, ⟨_, ⟨q, rfl⟩, _, ⟨ts, ⟨e, he⟩, _, ⟨r, rfl⟩, rfl⟩, rfl⟩, rfl⟩
  exact ⟨_, .index (he _)⟩

theorem assign_rule (s : String) :
    single (.name s) * (single (.sign .assign) * phrases .expr) ≤ forms inFunction next := by
  rintro _ ⟨_, ⟨p, rfl⟩, _, ⟨_, ⟨q, rfl⟩, ts, ⟨e, he⟩, rfl⟩, rfl⟩
  exact ⟨_, .assign (he _)⟩

/-- A statement that begins with a name calls, indexes or assigns. -/
theorem nameStmt_rule (s : String) :
    single (.name s) * (inParens (phrases .list) +
      (inBrackets (phrases .expr) + single (.sign .assign) * phrases .expr)) ≤
      forms inFunction next := by
  rw [mul_add, mul_add]
  exact add_le (callStmt_rule s) (add_le (indexStmt_rule s) (assign_rule s))

theorem valueFormStmt_rule : phrases .valueForm ≤ forms inFunction next := by
  rintro ts ⟨form, h⟩
  exact ⟨_, .valueForm (h _)⟩

theorem block_rule :
    single (.sign .leftBrace) *
      (stmtRows inFunction (some (.sign .rightBrace)) * single (.sign .rightBrace)) ≤
      blocks inFunction := by
  rintro _ ⟨_, ⟨p, rfl⟩, _, ⟨ts, ⟨ss, hss⟩, _, ⟨q, rfl⟩, rfl⟩, rfl⟩
  exact ⟨_, fun _ => .block hss⟩

/-- A statement in front of a row of them makes a longer row. What is next matters to the
statement only if the row is empty, and then the row ends where statements do. -/
theorem cons_rule {ts us : List Token} {stop : Option Token.Kind}
    (hs : ts ∈ forms inFunction next) (hss : us ∈ stmtRows inFunction stop)
    (omits : omitsValue stop = true) (goesOn : us ≠ [] → next = ahead us stop) :
    ts ++ us ∈ stmtRows inFunction stop := by
  obtain ⟨form, hform⟩ := hs
  obtain ⟨ss, hss⟩ := hss
  by_cases none : us = []
  · subst none
    have ended := hform.form_followedBy (endsStmt_of_omitsValue omits) fun _ => omits
    exact ⟨_, .cons (.stmt ended) .nil⟩
  · rw [goesOn none] at hform
    exact ⟨_, .cons (.stmt hform) hss⟩

end Grammar

end BraceScript
