-- What a reader takes is a phrase of the grammar. Each reader that comes to
-- an end has taken some tokens off the front, and they derive what it gives.
import BraceScript.Proofs.Grammar

namespace BraceScript

/-- The kind of the next token. -/
def Cursor.next (c : Cursor) : Option Token.Kind := c.rest.head?.map Token.kind

/-- Taking the tokens leads from one cursor to another. The end of the text is
only reached if no mistake stands there. -/
structure Cursor.Consumes (ending : Ending) (c : Cursor) (ts : List Token) (after : Cursor) :
    Prop where
  rest : c.rest = ts ++ after.rest
  stop : after.lastStop = Grammar.lastStop c.lastStop ts
  ends : ts ≠ [] → after.rest = [] → ∃ length, ending = .complete length

namespace Reader

open Grammar

variable {α β : Type} {ending : Ending} {c : Cursor}

theorem consumes_nil (ending : Ending) (c : Cursor) : c.Consumes ending [] c :=
  ⟨rfl, rfl, fun h => absurd rfl h⟩

theorem Consumes.append {mid after : Cursor} {ts us : List Token}
    (h : c.Consumes ending ts mid) (h' : mid.Consumes ending us after) :
    c.Consumes ending (ts ++ us) after := by
  refine ⟨by rw [h.rest, h'.rest, List.append_assoc], by rw [h'.stop, h.stop, lastStop_append],
    fun some none => ?_⟩
  by_cases hus : us = []
  · subst hus
    have : mid.rest = [] := by rw [h'.rest, none, List.append_nil]
    exact h.ends (by simpa using some) this
  · exact h'.ends hus none

theorem Consumes.next {after : Cursor} {ts : List Token} (h : c.Consumes ending ts after) :
    c.next = ahead ts after.next := by
  unfold Cursor.next ahead
  rw [h.rest]
  cases ts <;> rfl

/-- If the reader comes to an end here, the tokens that it took and what is
next then are as said. -/
def Finds (ending : Ending) (c : Cursor) (x : Reader α)
    (P : Option Token.Kind → List Token → α → Prop) : Prop :=
  ∀ v after, x ending c = .done v after →
    ∃ ts, c.Consumes ending ts after ∧ P after.next ts v

variable {P : Option Token.Kind → List Token → α → Prop}
  {Q : Option Token.Kind → List Token → β → Prop}

theorem Finds.andThen {x : Reader α} {f : α → Reader β} (hx : Finds ending c x P)
    (hf : ∀ v ts mid, c.Consumes ending ts mid → P mid.next ts v →
      Finds ending mid (f v) fun next us w => mid.next = ahead us next → Q next (ts ++ us) w) :
    Finds ending c (x >>= f) Q := by
  intro w after h
  cases hxc : x ending c with
  | done v mid =>
    rw [bind_done hxc] at h
    obtain ⟨ts, hts, hv⟩ := hx v mid hxc
    obtain ⟨us, hus, hw⟩ := hf v ts mid hts hv w after h
    exact ⟨ts ++ us, Consumes.append hts hus, hw (Consumes.next hus)⟩
  | refused error =>
    rw [bind_refused hxc] at h
    cases h
  | outOfFuel =>
    rw [bind_outOfFuel hxc] at h
    cases h

theorem Finds.imp {x : Reader α} {P' : Option Token.Kind → List Token → α → Prop}
    (hx : Finds ending c x P) (h : ∀ next ts v, P next ts v → P' next ts v) :
    Finds ending c x P' := by
  intro v after hv
  obtain ⟨ts, hts, hp⟩ := hx v after hv
  exact ⟨ts, hts, h _ _ _ hp⟩

theorem finds_pure (v : α) (h : P c.next [] v) : Finds ending c (Pure.pure v : Reader α) P := by
  intro w after hw
  cases hw
  exact ⟨[], consumes_nil _ _, h⟩

theorem finds_expected (e : Expectation) : Finds ending c (expected e : Reader α) P := by
  intro v after h
  rcases c with ⟨_ | ⟨t, rest⟩, stop⟩
  · cases ending <;> cases h
  · cases h

theorem finds_refuse (cause : SyntaxError.Cause) (span : Span) :
    Finds ending c (refuse cause span : Reader α) P := by
  intro v after h
  cases h

theorem finds_outOfFuel : Finds ending c (outOfFuel : Reader α) P := by
  intro v after h
  cases h

/-- Looking ahead takes nothing. -/
theorem Finds.afterPeek {f : Option Token.Kind → Reader α} (h : Finds ending c (f c.next) P) :
    Finds ending c (peek >>= f) P := h

/-- Where the next token stands is asked, and that takes nothing. -/
theorem Finds.afterHere {f : Span → Reader α}
    (h : ∀ start, (∀ t rest, c.rest = t :: rest → start = t.span) → Finds ending c (f start) P) :
    Finds ending c (here >>= f) P := by
  rcases c with ⟨_ | ⟨t, rest⟩, stop⟩
  · cases ending
    · exact h _ (by simp)
    · exact h _ (by simp)
  · exact h t.span (by simp)

theorem finds_skip {k : Token.Kind} (h : c.next = some k) :
    Finds ending c skip fun _ ts _ => ∃ p, ts = [⟨k, p⟩] := by
  intro v after hv
  rcases c with ⟨_ | ⟨⟨k', p⟩, rest⟩, stop⟩
  · cases h
  · cases h
    refine ⟨[⟨k', p⟩], ?_, p, rfl⟩
    cases rest with
    | nil =>
      cases ending with
      | complete length => cases hv; exact ⟨rfl, rfl, fun _ _ => ⟨length, rfl⟩⟩
      | mistake e => cases hv
    | cons u rest => cases hv; exact ⟨rfl, rfl, fun _ none => by cases none⟩

/-- A branch on whether a sign is next. -/
theorem Finds.afterAt {s : Sign} {f : Bool → Reader α}
    (yes : c.next = some (.sign s) → Finds ending c (f true) P)
    (no : c.next ≠ some (.sign s) → Finds ending c (f false) P) :
    Finds ending c (at? s >>= f) P := by
  change Finds ending c (f (decide (c.next = some (.sign s)))) P
  by_cases h : c.next = some (.sign s)
  · simpa [h] using yes h
  · simpa [h] using no h

theorem finds_sign (s : Sign) :
    Finds ending c (sign s) fun _ ts _ => ∃ p, ts = [⟨.sign s, p⟩] :=
  Finds.afterAt (fun h => finds_skip h) (fun _ => finds_expected _)

theorem finds_name : Finds ending c name fun _ ts s => ∃ p, ts = [⟨.name s, p⟩] := by
  apply Finds.afterPeek
  split
  · next s h =>
    apply (finds_skip h).andThen
    rintro _ ts mid - ⟨p, rfl⟩
    exact finds_pure _ fun _ => ⟨p, rfl⟩
  · exact finds_expected _

/-! ## Parts of expressions -/

/-- The span from the front of the first token to where the last one ends. -/
theorem Consumes.cover {mid : Cursor} {ts : List Token} {start : Span}
    (h : c.Consumes ending ts mid) (some : ts ≠ [])
    (hs : ∀ t rest, c.rest = t :: rest → start = t.span) :
    (⟨start.start, max mid.lastStop start.stop⟩ : Span) = Grammar.cover ts := by
  cases ts with
  | nil => exact absurd rfl some
  | cons t us =>
    rw [hs t _ h.rest, h.stop]
    rfl

/-- From here on an expression is read, as long as it goes on. -/
def FindsExpr (ending : Ending) (e : Reader Expr) : Prop :=
  ∀ c, Finds ending c e fun next ts v => DerivesExpr true next ts (.expr v) ∧ EndsExpr next

def FindsItems (ending : Ending) (es : Reader (List Expr)) : Prop :=
  ∀ c, Finds ending c es fun next ts vs => DerivesExpr true next ts (.items vs)

theorem finds_exprFrom (start : Span) (form : ExprForm) :
    Finds ending c (exprFrom start form) fun _ ts e =>
      ts = [] ∧ e = .at ⟨start.start, max c.lastStop start.stop⟩ form := by
  intro v after h
  cases h
  exact ⟨[], consumes_nil _ _, rfl, rfl⟩

theorem finds_parenthesized {e : Reader Expr} (he : FindsExpr ending e) :
    Finds ending c (parenthesized e) fun _ ts v => ∃ us p q,
      ts = ⟨.sign .leftParen, p⟩ :: (us ++ [⟨.sign .rightParen, q⟩]) ∧
        DerivesExpr true (some (.sign .rightParen)) us (.expr v) := by
  apply (finds_sign _).andThen
  rintro _ _ mid - ⟨p, rfl⟩
  apply (he mid).andThen
  rintro v us mid' - ⟨hv, -⟩
  apply (finds_sign _).andThen
  rintro _ _ last - ⟨q, rfl⟩
  refine finds_pure v fun _ h _ => ⟨us, p, q, by simp, ?_⟩
  simpa [h] using hv

theorem finds_bracketed {e : Reader Expr} (he : FindsExpr ending e) :
    Finds ending c (bracketed e) fun _ ts v => ∃ us p q,
      ts = ⟨.sign .leftBracket, p⟩ :: (us ++ [⟨.sign .rightBracket, q⟩]) ∧
        DerivesExpr true (some (.sign .rightBracket)) us (.expr v) := by
  apply (finds_sign _).andThen
  rintro _ _ mid - ⟨p, rfl⟩
  apply (he mid).andThen
  rintro v us mid' - ⟨hv, -⟩
  apply (finds_sign _).andThen
  rintro _ _ last - ⟨q, rfl⟩
  refine finds_pure v fun _ h _ => ⟨us, p, q, by simp, ?_⟩
  simpa [h] using hv

theorem finds_listUntil {close : Sign} {es : Reader (List Expr)} (hes : FindsItems ending es) :
    Finds ending c (listUntil close es) fun _ ts vs => ∃ us q,
      ts = us ++ [⟨.sign close, q⟩] ∧ DerivesExpr true (some (.sign close)) us (.list vs) := by
  refine Finds.afterAt (fun _ => ?_) (fun _ => ?_)
  · apply (finds_sign _).andThen
    rintro _ _ mid - ⟨q, rfl⟩
    exact finds_pure _ fun _ => ⟨[], q, rfl, .noItems⟩
  · apply (hes c).andThen
    rintro vs us mid - hvs
    apply (finds_sign _).andThen
    rintro _ _ last - ⟨q, rfl⟩
    refine finds_pure vs fun _ h => ⟨us, q, by simp, .someItems ?_⟩
    simpa [h] using hvs

theorem finds_arguments {es : Reader (List Expr)} (hes : FindsItems ending es) :
    Finds ending c (arguments es) fun _ ts vs => ∃ us p q,
      ts = ⟨.sign .leftParen, p⟩ :: (us ++ [⟨.sign .rightParen, q⟩]) ∧
        DerivesExpr true (some (.sign .rightParen)) us (.list vs) := by
  apply (finds_sign _).andThen
  rintro _ _ mid - ⟨p, rfl⟩
  apply (finds_listUntil hes).imp
  rintro next ts vs ⟨us, q, rfl, hvs⟩ -
  exact ⟨us, p, q, rfl, hvs⟩

/-- A name with what follows it is a primary. -/
theorem finds_nameTail {e : Reader Expr} {es : Reader (List Expr)} (s : String) (p : Span)
    (he : FindsExpr ending e) (hes : FindsItems ending es) :
    Finds ending c (nameTail e es s) fun next ts form =>
      DerivesExpr true next (⟨.name s, p⟩ :: ts) (.primary form) := by
  apply Finds.afterPeek
  split
  · apply (finds_arguments hes).andThen
    rintro vs _ mid - ⟨us, q, r, rfl, hvs⟩
    exact finds_pure _ fun _ => by simpa using .call hvs
  · apply (finds_bracketed he).andThen
    rintro v _ mid - ⟨us, q, r, rfl, hv⟩
    exact finds_pure _ fun _ => by simpa using .index hv
  · exact finds_pure _ .name

/-- A keyword with one operand behind it. -/
theorem finds_operand {e : Reader Expr} {k : Keyword} {form : Expr → ExprForm} {start : Span}
    (he : FindsExpr ending e) (hk : c.next = some (.keyword k)) (hf : operandForm? k = some form)
    (hs : ∀ t rest, c.rest = t :: rest → start = t.span) :
    Finds ending c (do skip; let v ← e; exprFrom start (form v)) fun next ts v =>
      ∃ f, v = .at (cover ts) f ∧ DerivesExpr true next ts (.valueForm f) := by
  apply (finds_skip hk).andThen
  rintro _ _ mid hmid ⟨p, rfl⟩
  apply (he mid).andThen
  rintro v us mid' hmid' ⟨hv, hends⟩
  apply (finds_exprFrom start _).imp
  rintro next ts w ⟨rfl, rfl⟩ h h'
  have all := Consumes.cover (Consumes.append hmid hmid') (by simp) hs
  simp only [ahead_nil] at h
  refine ⟨form v, by simpa using all, ?_⟩
  simpa [h] using DerivesExpr.operandForm hf (fun _ => hends) hv

/-- A keyword with the name of an array and an operand behind it. -/
theorem finds_namedOperand {e : Reader Expr} {k : Keyword} {form : String → Expr → ExprForm}
    {start : Span} (he : FindsExpr ending e) (hk : c.next = some (.keyword k))
    (hf : arrayForm? k = some form) (hs : ∀ t rest, c.rest = t :: rest → start = t.span) :
    Finds ending c (do skip; let a ← name; let v ← e; exprFrom start (form a v))
      fun next ts v => ∃ f, v = .at (cover ts) f ∧ DerivesExpr true next ts (.valueForm f) := by
  apply (finds_skip hk).andThen
  rintro _ _ mid hmid ⟨p, rfl⟩
  apply finds_name.andThen
  rintro a _ mid' hmid' ⟨q, rfl⟩
  apply (he mid').andThen
  rintro v us mid'' hmid'' ⟨hv, hends⟩
  apply (finds_exprFrom start _).imp
  rintro next ts w ⟨rfl, rfl⟩ h h' h''
  have all := Consumes.cover (Consumes.append (Consumes.append hmid hmid') hmid'') (by simp) hs
  simp only [ahead_nil] at h
  refine ⟨form a v, by simpa using all, ?_⟩
  simpa [h] using DerivesExpr.arrayForm hf (fun _ => hends) hv

theorem finds_valueForm {e : Reader Expr} (he : FindsExpr ending e) :
    Finds ending c (valueForm e) fun next ts v =>
      ∃ f, v = .at (cover ts) f ∧ DerivesExpr true next ts (.valueForm f) := by
  refine Finds.afterHere fun start hs => Finds.afterPeek ?_
  split
  · next h => exact finds_operand he h rfl hs
  · next h => exact finds_namedOperand he h rfl hs
  · next h => exact finds_namedOperand he h rfl hs
  · next h =>
    apply (finds_skip h).andThen
    rintro _ _ mid hmid ⟨p, rfl⟩
    apply finds_name.andThen
    rintro a _ mid' hmid' ⟨q, rfl⟩
    apply (finds_exprFrom start _).imp
    rintro next ts w ⟨rfl, rfl⟩ h h'
    have all := Consumes.cover (Consumes.append hmid hmid') (by simp) hs
    exact ⟨.size a, by simpa using all, .size⟩
  · next h => exact finds_operand he h rfl hs
  · next h => exact finds_operand he h rfl hs
  · next h => exact finds_operand he h rfl hs
  · next h => exact finds_operand he h rfl hs
  · exact finds_expected _

/-- A token that is an expression by itself. -/
theorem finds_literal {k : Token.Kind} {form : ExprForm} {start : Span} (hk : c.next = some k)
    (hs : ∀ t rest, c.rest = t :: rest → start = t.span)
    (rule : ∀ {next} p, DerivesExpr true next [⟨k, p⟩] (.primary form)) :
    Finds ending c (do skip; exprFrom start form) fun next ts v =>
      DerivesExpr true next ts (.unary v) := by
  apply (finds_skip hk).andThen
  rintro _ _ mid hmid ⟨p, rfl⟩
  apply (finds_exprFrom start form).imp
  rintro next ts w ⟨rfl, rfl⟩ -
  have all := Consumes.cover hmid (by simp) hs
  simpa [all] using DerivesExpr.primary (rule p)

/-! ## Expressions -/

theorem Finds.afterBinaryOperator {f : Option BinaryOperator → Reader α}
    (some : ∀ k op, c.next = some k → k.binaryOperator? = some op → Finds ending c (f (some op)) P)
    (none : EndsExpr c.next → Finds ending c (f none) P) :
    Finds ending c (binaryOperator? >>= f) P := by
  change Finds ending c (f (c.next.bind Token.Kind.binaryOperator?)) P
  cases h : c.next.bind Token.Kind.binaryOperator? with
  | none => exact none h
  | some op =>
    obtain ⟨k, hk, hop⟩ := Option.bind_eq_some_iff.1 h
    exact some k op hk hop

theorem Finds.afterUnaryOperator {f : Option UnaryOperator → Reader α}
    (some : ∀ k op, c.next = some k → k.unaryOperator? = some op → Finds ending c (f (some op)) P)
    (none : Finds ending c (f none) P) : Finds ending c (unaryOperator? >>= f) P := by
  change Finds ending c (f (c.next.bind Token.Kind.unaryOperator?)) P
  cases h : c.next.bind Token.Kind.unaryOperator? with
  | none => exact none
  | some op =>
    obtain ⟨k, hk, hop⟩ := Option.bind_eq_some_iff.1 h
    exact some k op hk hop

/-- What is read as an expression to this depth derives as one. The operators behind a first
operand are told together with that operand. -/
structure SoundTo (ending : Ending) (n : Nat) : Prop where
  expr : FindsExpr ending (Reader.expr n)
  operations (c : Cursor) (left : Expr) (ls : List Token) :
    DerivesExpr true c.next ls (.expr left) →
    Finds ending c (Reader.operations n left) fun next ts v =>
      DerivesExpr true next (ls ++ ts) (.expr v) ∧ EndsExpr next
  unary (c : Cursor) : Finds ending c (Reader.unary n) fun next ts v =>
    DerivesExpr true next ts (.unary v)
  primary (c : Cursor) : Finds ending c (Reader.primary n) fun next ts v =>
    DerivesExpr true next ts (.unary v)
  items : FindsItems ending (Reader.items n)

namespace SoundTo

variable {n : Nat}

theorem expr_succ (sound : SoundTo ending n) : FindsExpr ending (Reader.expr (n + 1)) := by
  intro c
  unfold Reader.expr
  apply (sound.unary c).andThen
  rintro left ls mid - hl
  apply (sound.operations mid left ls (.operand hl)).imp
  intro _ _ _ hv _
  exact hv

theorem operations_succ (sound : SoundTo ending n) {left : Expr} {ls : List Token}
    (hl : DerivesExpr true c.next ls (.expr left)) :
    Finds ending c (Reader.operations (n + 1) left) fun next ts v =>
      DerivesExpr true next (ls ++ ts) (.expr v) ∧ EndsExpr next := by
  unfold Reader.operations
  refine Finds.afterBinaryOperator (fun k op hk hop => ?_) (fun hends => ?_)
  · apply (finds_skip hk).andThen
    rintro _ _ mid - ⟨p, rfl⟩
    apply (sound.unary mid).andThen
    rintro right rs mid' - hr
    rw [hk] at hl
    have both := DerivesExpr.operation (p := p) hl hop hr
    apply (sound.operations mid' _ _ both).imp
    rintro next ts v ⟨hv, hends⟩ - -
    exact ⟨by simpa using hv, hends⟩
  · exact finds_pure _ ⟨by simpa using hl, hends⟩

theorem unary_succ (sound : SoundTo ending n) (c : Cursor) :
    Finds ending c (Reader.unary (n + 1)) fun next ts v =>
      DerivesExpr true next ts (.unary v) := by
  unfold Reader.unary
  refine Finds.afterUnaryOperator (fun k op hk hop => ?_) (sound.primary c)
  apply Finds.afterHere
  intro start hs
  apply (finds_skip hk).andThen
  rintro _ _ mid hmid ⟨p, rfl⟩
  apply (sound.unary mid).andThen
  rintro operand ts mid' - ho
  have : start = p := hs _ _ hmid.rest
  subst this
  exact finds_pure _ fun _ _ => by simpa using DerivesExpr.operator hop ho

theorem primary_succ (sound : SoundTo ending n) (c : Cursor) :
    Finds ending c (Reader.primary (n + 1)) fun next ts v =>
      DerivesExpr true next ts (.unary v) := by
  unfold Reader.primary
  refine Finds.afterHere fun start hs => Finds.afterPeek ?_
  split
  · next h => exact finds_literal h hs fun _ => .number
  · next h => exact finds_literal h hs fun _ => .text
  · next h => exact finds_literal h hs fun _ => .boolean
  · next h => exact finds_literal h hs fun _ => .void
  · next h =>
    apply (finds_skip h).andThen
    rintro _ _ mid hmid ⟨p, rfl⟩
    apply (finds_nameTail _ p sound.expr sound.items).andThen
    rintro form ts mid' hmid' hform
    apply (finds_exprFrom start form).imp
    rintro next ts' w ⟨rfl, rfl⟩ h -
    have all := Consumes.cover (Consumes.append hmid hmid') (by simp) hs
    rw [h] at hform
    simpa [all] using DerivesExpr.primary hform
  · next h =>
    apply (finds_skip h).andThen
    rintro _ _ mid hmid ⟨p, rfl⟩
    apply (finds_listUntil sound.items).andThen
    rintro es _ mid' hmid' ⟨us, q, rfl, hes⟩
    apply (finds_exprFrom start _).imp
    rintro next ts' w ⟨rfl, rfl⟩ - -
    have all := Consumes.cover (Consumes.append hmid hmid') (by simp) hs
    have derived : DerivesExpr true next
        (⟨.sign .leftBracket, p⟩ :: (us ++ [⟨.sign .rightBracket, q⟩]))
        (.primary (.array es)) := .array hes
    simpa [all] using derived.primary
  · next h =>
    apply (finds_parenthesized sound.expr).andThen
    rintro e _ mid hmid ⟨us, p, q, rfl, he⟩
    apply (finds_exprFrom start _).imp
    rintro next ts' w ⟨rfl, rfl⟩ -
    have all := Consumes.cover hmid (by simp) hs
    have derived : DerivesExpr true next
        (⟨.sign .leftParen, p⟩ :: (us ++ [⟨.sign .rightParen, q⟩]))
        (.primary e.form) := .parens he
    simpa [all] using derived.primary
  · apply (finds_valueForm sound.expr).imp
    rintro next ts v ⟨f, rfl, hf⟩
    exact .primary (.valueForm hf)
  · exact finds_expected _

theorem items_succ (sound : SoundTo ending n) : FindsItems ending (Reader.items (n + 1)) := by
  intro c
  unfold Reader.items
  apply (sound.expr c).andThen
  rintro e ts mid - ⟨he, -⟩
  refine Finds.afterAt (fun hcomma => ?_) (fun _ => ?_)
  · apply (finds_skip hcomma).andThen
    rintro _ _ mid' - ⟨p, rfl⟩
    apply (sound.items mid').andThen
    rintro es us last - hes
    rw [hcomma] at he
    exact finds_pure _ fun _ _ _ => by simpa using DerivesExpr.moreItems he hes
  · exact finds_pure _ fun _ => by simpa using .lastItem he

end SoundTo

theorem soundTo (ending : Ending) (n : Nat) : SoundTo ending n := by
  induction n with
  | zero =>
    exact ⟨fun _ => finds_outOfFuel, fun _ _ _ _ => finds_outOfFuel, fun _ => finds_outOfFuel,
      fun _ => finds_outOfFuel, fun _ => finds_outOfFuel⟩
  | succ n sound =>
    exact ⟨sound.expr_succ, fun _ _ _ => sound.operations_succ, sound.unary_succ,
      sound.primary_succ, sound.items_succ⟩

/-! ## Parts of statements -/

/-- From here on statements are read. -/
def FindsStmts (ending : Ending) (inFunction : Bool) (body : Reader (List Stmt)) : Prop :=
  ∀ c, Finds ending c body fun next ts ss => DerivesStmt true inFunction next ts (.stmts ss)

def FindsNames (ending : Ending) (ns : Reader (List String)) : Prop :=
  ∀ c, Finds ending c ns fun _ ts ss => DerivesNames ts ss

theorem finds_names (n : Nat) : FindsNames ending (names n) := by
  induction n with
  | zero => exact fun _ => finds_outOfFuel
  | succ n ih =>
    intro c
    unfold names
    apply finds_name.andThen
    rintro s _ mid - ⟨p, rfl⟩
    refine Finds.afterAt (fun hcomma => ?_) (fun _ => ?_)
    · apply (finds_skip hcomma).andThen
      rintro _ _ mid' - ⟨q, rfl⟩
      apply (ih mid').andThen
      rintro ss ts last - hss
      exact finds_pure _ fun _ _ _ => by simpa using DerivesNames.more hss
    · exact finds_pure _ fun _ => .last

theorem finds_params {ns : Reader (List String)} (hns : FindsNames ending ns) :
    Finds ending c (params ns) fun _ ts ss => ∃ us p q,
      ts = ⟨.sign .leftParen, p⟩ :: (us ++ [⟨.sign .rightParen, q⟩]) ∧ DerivesParams us ss := by
  apply (finds_sign _).andThen
  rintro _ _ mid - ⟨p, rfl⟩
  refine Finds.afterAt (fun _ => ?_) (fun _ => ?_)
  · apply (finds_sign _).andThen
    rintro _ _ mid' - ⟨q, rfl⟩
    exact finds_pure _ fun _ _ => ⟨[], p, q, rfl, .none⟩
  · apply (hns mid).andThen
    rintro ss us mid' - hss
    apply (finds_sign _).andThen
    rintro _ _ last - ⟨q, rfl⟩
    exact finds_pure _ fun _ _ _ => ⟨us, p, q, by simp, .some hss⟩

theorem finds_block {inFunction : Bool} {body : Reader (List Stmt)}
    (hb : FindsStmts ending inFunction body) :
    Finds ending c (block body) fun next ts ss =>
      DerivesStmt true inFunction next ts (.block ss) := by
  apply (finds_sign _).andThen
  rintro _ _ mid - ⟨p, rfl⟩
  apply (hb mid).andThen
  rintro ss us mid' - hss
  apply (finds_sign _).andThen
  rintro _ _ last - ⟨q, rfl⟩
  apply finds_pure ss
  intro _ h _
  simp only [List.cons_append, List.nil_append, List.append_nil, ahead_cons] at h ⊢
  rw [h] at hss
  exact .block hss

variable {inFunction : Bool} {e : Reader Expr} {body : Reader (List Stmt)}

theorem finds_declaration (immutable : Bool)
    (hk : c.next = some (.keyword (declarer immutable))) (he : FindsExpr ending e) :
    Finds ending c (declaration e immutable) fun next ts form =>
      DerivesStmt true inFunction next ts (.form form) := by
  apply (finds_skip hk).andThen
  rintro _ _ c₁ - ⟨p, rfl⟩
  apply finds_name.andThen
  rintro s _ c₂ - ⟨q, rfl⟩
  apply (finds_sign _).andThen
  rintro _ _ c₃ - ⟨r, rfl⟩
  apply (he c₃).andThen
  rintro v ts c₄ - ⟨hv, -⟩
  exact finds_pure _ fun _ _ _ _ => by simpa using DerivesStmt.declare hv

theorem finds_printing (channel : Channel) (hk : c.next = some (.keyword (printer channel)))
    (he : FindsExpr ending e) :
    Finds ending c (printing e channel) fun next ts form =>
      DerivesStmt true inFunction next ts (.form form) := by
  apply (finds_skip hk).andThen
  rintro _ _ mid - ⟨p, rfl⟩
  apply (he mid).andThen
  rintro v ts last - ⟨hv, -⟩
  exact finds_pure _ fun _ _ => by simpa using DerivesStmt.print hv

theorem finds_branching (hk : c.next = some (.keyword .ifThen)) (he : FindsExpr ending e)
    (hb : FindsStmts ending inFunction body) :
    Finds ending c (branching e body) fun next ts form =>
      DerivesStmt true inFunction next ts (.form form) := by
  apply (finds_skip hk).andThen
  rintro _ _ c₁ - ⟨p, rfl⟩
  apply (finds_parenthesized he).andThen
  rintro v _ c₂ - ⟨cs, q, r, rfl, hv⟩
  apply (finds_block hb).andThen
  rintro ss ts c₃ - hss
  apply Finds.afterPeek
  split
  · next hElse =>
    apply (finds_skip hElse).andThen
    rintro _ _ c₄ - ⟨o, rfl⟩
    apply (finds_block hb).andThen
    rintro ss' us c₅ - hss'
    change c₃.next = _ at hElse
    rw [hElse] at hss
    exact finds_pure _ fun _ _ _ _ _ => by simpa using DerivesStmt.branchElse hv hss hss'
  · exact finds_pure _ fun _ _ _ => by simpa using DerivesStmt.branch hv hss

theorem finds_counting (hk : c.next = some (.keyword .loop)) (he : FindsExpr ending e)
    (hb : FindsStmts ending inFunction body) :
    Finds ending c (counting e body) fun next ts form =>
      DerivesStmt true inFunction next ts (.form form) := by
  apply (finds_skip hk).andThen
  rintro _ _ c₁ - ⟨p, rfl⟩
  apply (finds_sign _).andThen
  rintro _ _ c₂ - ⟨q, rfl⟩
  apply finds_name.andThen
  rintro s _ c₃ - ⟨r, rfl⟩
  apply (finds_sign _).andThen
  rintro _ _ c₄ - ⟨o, rfl⟩
  apply (he c₄).andThen
  rintro a as c₅ - ⟨ha, -⟩
  apply (finds_sign _).andThen
  rintro _ _ c₆ - ⟨m, rfl⟩
  apply (he c₆).andThen
  rintro b bs c₇ - ⟨hb', -⟩
  apply (finds_sign _).andThen
  rintro _ _ c₈ - ⟨l, rfl⟩
  apply (finds_block hb).andThen
  rintro ss ts c₉ - hss
  apply finds_pure _
  intro _ _ h₇ _ h₅ _ _ _ _
  simp only [List.cons_append, List.nil_append, List.append_nil, ahead_cons] at h₅ h₇ ⊢
  rw [h₅] at ha
  rw [h₇] at hb'
  simpa using DerivesStmt.loop ha hb' hss

theorem finds_repeating (hk : c.next = some (.keyword .while)) (he : FindsExpr ending e)
    (hb : FindsStmts ending inFunction body) :
    Finds ending c (repeating e body) fun next ts form =>
      DerivesStmt true inFunction next ts (.form form) := by
  apply (finds_skip hk).andThen
  rintro _ _ c₁ - ⟨p, rfl⟩
  apply (finds_parenthesized he).andThen
  rintro v _ c₂ - ⟨cs, q, r, rfl, hv⟩
  apply (finds_block hb).andThen
  rintro ss ts c₃ - hss
  exact finds_pure _ fun _ _ _ => by simpa using DerivesStmt.while hv hss

theorem finds_definition {ns : Reader (List String)} (hk : c.next = some (.keyword .func))
    (hns : FindsNames ending ns) (hb : FindsStmts ending true body) :
    Finds ending c (definition ns body) fun next ts form =>
      DerivesStmt true inFunction next ts (.form form) := by
  apply (finds_skip hk).andThen
  rintro _ _ c₁ - ⟨p, rfl⟩
  apply finds_name.andThen
  rintro s _ c₂ - ⟨q, rfl⟩
  apply (finds_params hns).andThen
  rintro params _ c₃ - ⟨as, r, o, rfl, hparams⟩
  apply (finds_block hb).andThen
  rintro ss ts c₄ - hss
  exact finds_pure _ fun _ _ _ _ => by simpa using DerivesStmt.function hparams hss

theorem finds_returning (hk : c.next = some (.keyword .return)) (he : FindsExpr ending e) :
    Finds ending c (returning e inFunction) fun next ts form =>
      DerivesStmt true inFunction next ts (.form form) := by
  unfold returning
  split
  · next h =>
    subst h
    apply (finds_skip hk).andThen
    rintro _ _ mid - ⟨p, rfl⟩
    have nothing (h : omitsValue mid.next = true) :
        Finds ending mid (Pure.pure (.return none)) fun next us form =>
          mid.next = ahead us next → DerivesStmt true true next ([⟨.keyword .return, p⟩] ++ us)
            (.form form) := finds_pure _ fun _ => .returnNothing h
    have value (h : omitsValue mid.next = false) :
        Finds ending mid (do return .return (some (← e))) fun next us form =>
          mid.next = ahead us next → DerivesStmt true true next ([⟨.keyword .return, p⟩] ++ us)
            (.form form) := by
      apply (he mid).andThen
      rintro v us last - ⟨hv, -⟩
      apply finds_pure _
      intro _ hmid
      rw [hmid] at h
      simpa using DerivesStmt.returnValue (by simpa using h) hv
    apply Finds.afterPeek
    split
    · next h => exact nothing (by rw [h]; rfl)
    · next h => exact nothing (by rw [h]; rfl)
    · next k h =>
      split
      · next hOnly => exact nothing (by rw [h]; exact hOnly)
      · next hOnly => exact value (by rw [h]; simpa [omitsValue] using hOnly)
    · next k hBrace hKeyword h =>
      apply value
      rw [h]
      unfold omitsValue
      split <;> simp_all
  · exact Finds.afterHere fun _ _ => finds_refuse _ _

theorem finds_connecting (hk : c.next = some (.keyword .connect)) :
    Finds ending c connecting fun next ts form =>
      DerivesStmt true inFunction next ts (.form form) := by
  apply (finds_skip hk).andThen
  rintro _ _ mid - ⟨p, rfl⟩
  apply Finds.afterPeek
  split
  · next h =>
    apply (finds_skip h).andThen
    rintro _ _ last - ⟨q, rfl⟩
    exact finds_pure _ fun _ _ => .connect
  · exact finds_expected _

theorem finds_nameStatement {es : Reader (List Expr)} {s : String}
    (hs : c.next = some (.name s)) (he : FindsExpr ending e) (hes : FindsItems ending es) :
    Finds ending c (nameStatement e es s) fun next ts form =>
      DerivesStmt true inFunction next ts (.form form) := by
  apply Finds.afterHere
  intro start hstart
  apply (finds_skip hs).andThen
  rintro _ _ mid hmid ⟨p, rfl⟩
  apply Finds.afterPeek
  split
  · apply (finds_arguments hes).andThen
    rintro vs _ mid' hmid' ⟨us, q, r, rfl, hvs⟩
    apply (finds_exprFrom start _).andThen
    rintro _ _ last - ⟨rfl, rfl⟩
    have all := Consumes.cover (Consumes.append hmid hmid') (by simp) hstart
    apply finds_pure _
    intro _ _ _
    simpa [all] using DerivesStmt.call hvs
  · apply (finds_bracketed he).andThen
    rintro v _ mid' hmid' ⟨us, q, r, rfl, hv⟩
    apply (finds_exprFrom start _).andThen
    rintro _ _ last - ⟨rfl, rfl⟩
    have all := Consumes.cover (Consumes.append hmid hmid') (by simp) hstart
    apply finds_pure _
    intro _ _ _
    simpa [all] using DerivesStmt.index hv
  · next h =>
    apply (finds_skip h).andThen
    rintro _ _ mid' - ⟨q, rfl⟩
    apply (he mid').andThen
    rintro v ts last - ⟨hv, -⟩
    exact finds_pure _ fun _ _ _ => by simpa using DerivesStmt.assign hv
  · exact finds_expected _

/-- A keyword with the name of what is to go. -/
theorem finds_deletion {k : Keyword} {form : String → StmtForm}
    (hk : c.next = some (.keyword k))
    (rule : ∀ {next} s p q, DerivesStmt true inFunction next
      [⟨.keyword k, p⟩, ⟨.name s, q⟩] (.form (form s))) :
    Finds ending c (do skip; return form (← name)) fun next ts f =>
      DerivesStmt true inFunction next ts (.form f) := by
  apply (finds_skip hk).andThen
  rintro _ _ mid - ⟨p, rfl⟩
  apply finds_name.andThen
  rintro s _ last - ⟨q, rfl⟩
  exact finds_pure _ fun _ _ => rule s p q

theorem finds_keywordStatement {ns : Reader (List String)} {functionBody : Reader (List Stmt)}
    {k : Keyword} (hk : c.next = some (.keyword k)) (he : FindsExpr ending e)
    (hns : FindsNames ending ns) (hb : FindsStmts ending inFunction body)
    (hf : FindsStmts ending true functionBody) :
    Finds ending c (keywordStatement e ns body functionBody inFunction k) fun next ts form =>
      DerivesStmt true inFunction next ts (.form form) := by
  unfold keywordStatement
  split
  · exact finds_declaration false hk he
  · exact finds_declaration true hk he
  · exact finds_printing .info hk he
  · exact finds_printing .error hk he
  · exact finds_printing .warning hk he
  · exact finds_branching hk he hb
  · exact finds_counting hk he hb
  · exact finds_repeating hk he hb
  · exact finds_definition hk hns hf
  · exact finds_returning hk he
  · exact finds_deletion hk fun _ _ _ => .deleteVariable
  · exact finds_deletion hk fun _ _ _ => .deleteFunction
  · exact finds_connecting hk
  · apply (finds_skip hk).andThen
    rintro _ _ mid - ⟨p, rfl⟩
    apply (finds_block hb).andThen
    rintro ss ts last - hss
    exact finds_pure _ fun _ _ => by simpa using DerivesStmt.async hss
  · split
    · apply (finds_valueForm he).andThen
      rintro v ts last - ⟨f, rfl, hv⟩
      exact finds_pure _ fun _ => by simpa using DerivesStmt.valueForm hv
    · exact finds_expected _

/-! ## Statements -/

theorem finds_statements (n : Nat) :
    (∀ c inFunction, Finds ending c (stmt n inFunction) fun next ts s =>
      DerivesStmt true inFunction next ts (.stmt s)) ∧
    (∀ inFunction, FindsStmts ending inFunction (stmts n inFunction)) := by
  induction n with
  | zero => exact ⟨fun _ _ => finds_outOfFuel, fun _ _ => finds_outOfFuel⟩
  | succ n ih =>
    obtain ⟨ihStmt, ihStmts⟩ := ih
    have sound := soundTo ending n
    refine ⟨fun c inFunction => ?_, fun inFunction c => ?_⟩
    · unfold stmt
      refine Finds.afterHere fun start hs => Finds.afterPeek ?_
      have whole {x : Reader StmtForm} (hx : Finds ending c x fun next ts form =>
            DerivesStmt true inFunction next ts (.form form)) :
          Finds ending c (do let form ← x; return .at (← spanFrom start) form) fun next ts s =>
            DerivesStmt true inFunction next ts (.stmt s) := by
        apply hx.andThen
        rintro form ts mid hmid hform s last hlast
        cases hlast
        obtain ⟨t, us, rfl, -⟩ := hform.begins_form
        have all := Consumes.cover hmid (by simp) hs
        refine ⟨[], consumes_nil _ _, fun _ => ?_⟩
        simpa [all] using DerivesStmt.stmt hform
      split
      · next h =>
        exact whole (finds_keywordStatement h sound.expr (finds_names n) (ihStmts _) (ihStmts _))
      · next h => exact whole (finds_nameStatement h sound.expr sound.items)
      · exact whole (finds_expected _)
    · unfold stmts
      apply Finds.afterPeek
      split
      · exact finds_expected _
      · exact finds_pure _ .nil
      · apply (ihStmt c inFunction).andThen
        rintro s ts mid - hs
        apply (ihStmts inFunction mid).andThen
        rintro ss us last - hss
        apply finds_pure _
        intro _ h
        simp only [List.append_nil] at h ⊢
        rw [h] at hs
        exact .cons hs hss

/-- A program that is read to its end uses up all tokens. -/
theorem finds_program (n : Nat) : ∀ c : Cursor, Finds ending c (program n) fun next ts ss =>
    next = none ∧ DerivesStmt true false next ts (.stmts ss) := by
  induction n with
  | zero => exact fun _ => finds_outOfFuel
  | succ n ih =>
    intro c
    unfold program
    apply Finds.afterPeek
    split
    · next h => exact finds_pure _ ⟨h, .nil⟩
    · apply ((finds_statements n).1 c false).andThen
      rintro s ts mid - hs
      apply (ih mid).andThen
      rintro ss us last - ⟨hnone, hss⟩
      refine finds_pure _ fun _ h => ⟨hnone, ?_⟩
      simp only [List.append_nil] at h ⊢
      rw [h] at hs
      exact .cons hs hss

end Reader

open Grammar

/-- A text that is read as a program has no mistake in it, and its tokens derive what
was read. -/
theorem parseTokens_sound {ts : List Token} {ending : Ending} {ss : List Stmt}
    (h : parseTokens ts ending = .ok ss) :
    (∃ length, ending = .complete length) ∧ Program true ts ss := by
  unfold parseTokens at h
  split at h
  · cases h
  · next hmistake =>
    split at h
    · next stmts after hread =>
      cases h
      obtain ⟨us, hus, hnone, hss⟩ := Reader.finds_program _ _ _ _ hread
      have last : after.rest = [] := by simpa [Cursor.next] using hnone
      have : ts = us := by simpa [last] using hus.rest
      subst this
      refine ⟨?_, by rw [hnone] at hss; exact hss⟩
      by_cases hts : ts = []
      · subst hts
        cases ending with
        | complete length => exact ⟨length, rfl⟩
        | mistake e => exact absurd rfl (hmistake e rfl)
      · exact hus.ends hts last
    · cases h
    · cases h

end BraceScript
