-- A reader looks one token ahead and no further, and what it has taken when it
-- refuses a text can still be completed to something that it reads. One lemma
-- for each reader says which rows of tokens it is on the way to.
import BraceScript.Proofs.Grammar.Languages

namespace BraceScript

open Grammar

variable {α β : Type} {ending : Ending} {c : Cursor}

/-! ## The first of what is left -/

/-- Both rows begin with the same token. -/
def BeginAlike (rest rest' : List Token) : Prop := ∃ t ∈ rest.head?, t ∈ rest'.head?

theorem not_beginAlike_nil {rest : List Token} : ¬ BeginAlike [] rest := by
  rintro ⟨t, ⟨⟩, -⟩

theorem beginAlike_cons (t : Token) (rest rest' : List Token) :
    BeginAlike (t :: rest) (t :: rest') := ⟨t, rfl, rfl⟩

theorem BeginAlike.append {rest rest' : List Token} (h : BeginAlike rest rest')
    (ts : List Token) : BeginAlike (ts ++ rest) (ts ++ rest') := by
  cases ts with
  | nil => exact h
  | cons t ts => exact beginAlike_cons _ _ _

theorem BeginAlike.exists_cons {rest rest' : List Token} (h : BeginAlike rest rest') :
    ∃ t us us', rest = t :: us ∧ rest' = t :: us' := by
  obtain ⟨t, ht, ht'⟩ := h
  obtain ⟨us, rfl⟩ := List.head?_eq_some_iff.1 ht
  obtain ⟨us', rfl⟩ := List.head?_eq_some_iff.1 ht'
  exact ⟨t, us, us', rfl, rfl⟩

/-- The error is about the first token that is left, or about what stands behind the last one
if none is left. -/
def SyntaxError.IsAbout (e : SyntaxError) (rest : List Token) (ending : Ending) : Prop :=
  match rest, ending with
  | t :: _, _ => e.span = t.span ∧
      (e.cause.code = .unexpectedToken ∨ e.cause.code = .strayReturn)
  | [], .complete length => e.cause.code = .unexpectedEnd ∧ e.span = Span.point length
  | [], .mistake m => e = SyntaxError.ofLexical m

/-! ## Readers of languages -/

/-- What the reader takes belongs to the language, for what is next then. If it refuses a text,
what it has taken until then can be completed. And it depends on no token behind the next one. -/
inductive Reader.Tracks (ending : Ending) (c : Cursor) (x : Reader α)
    (L : Option Token.Kind → Language Token) : Prop where
  | done (v : α) (after : Cursor) (ts : List Token) : x ending c = .done v after →
    c.rest = ts ++ after.rest → ts ∈ L after.next →
    (∀ ending' rest, BeginAlike after.rest rest →
      x ending' ⟨ts ++ rest, c.lastStop⟩ = .done v ⟨rest, after.lastStop⟩) →
    Tracks ending c x L
  | refused (e : SyntaxError) (ts rest : List Token) : x ending c = .refused e →
    c.rest = ts ++ rest → (∃ us, ts ++ us ∈ L none) → e.IsAbout rest ending →
    (∀ ending' rest', BeginAlike rest rest' → x ending' ⟨ts ++ rest', c.lastStop⟩ = .refused e) →
    Tracks ending c x L
  | outOfFuel : x ending c = .outOfFuel → Tracks ending c x L

namespace Reader

variable {D D' : Language Token} {K L : Option Token.Kind → Language Token}

theorem Tracks.bind {x : Reader α} {f : α → Reader β} (hx : Tracks ending c x K)
    (goesOn : ∀ ts ∈ K none, ∃ us, ts ++ us ∈ L none)
    (hf : ∀ v mid, ∀ ts ∈ K mid.next,
      Tracks ending mid (f v) fun next => behind ts (L next)) :
    Tracks ending c (x >>= f) L := by
  cases hx with
  | outOfFuel h => exact .outOfFuel (bind_outOfFuel h)
  | refused e ts rest h hrest hts about same =>
    obtain ⟨us, hus⟩ := hts
    obtain ⟨vs, hvs⟩ := goesOn _ hus
    refine .refused e ts rest (bind_refused h) hrest ⟨us ++ vs, ?_⟩ about ?_
    · rwa [← List.append_assoc]
    · exact fun ending' rest' alike => bind_refused (same ending' rest' alike)
  | done v mid ts h hrest hts same =>
    -- A token that the second part takes is what the first part has looked at.
    have first {us rest rest' : List Token} (hmid : mid.rest = us ++ rest)
        (alike : BeginAlike rest rest') (ending' : Ending) :
        (x >>= f) ending' ⟨ts ++ us ++ rest', c.lastStop⟩ =
          f v ending' ⟨us ++ rest', mid.lastStop⟩ := by
      rw [List.append_assoc]
      exact bind_done (same ending' _ (by rw [hmid]; exact alike.append us))
    cases hf v mid ts hts with
    | outOfFuel h' => exact .outOfFuel (by rw [bind_done h, h'])
    | refused e us rest h' hmid hus about same' =>
      obtain ⟨vs, hvs⟩ := hus
      refine .refused e (ts ++ us) rest (by rw [bind_done h, h']) ?_ ⟨vs, ?_⟩ about ?_
      · rw [hrest, hmid, List.append_assoc]
      · rw [List.append_assoc]
        exact hvs
      · intro ending' rest' alike
        rw [first hmid alike, same' ending' rest' alike]
    | done w after us h' hmid hus same' =>
      refine .done w after (ts ++ us) (by rw [bind_done h, h']) ?_ hus ?_
      · rw [hrest, hmid, List.append_assoc]
      · intro ending' rest' alike
        rw [first hmid alike, same' ending' rest' alike]

theorem Tracks.mono {x : Reader α} (hx : Tracks ending c x K) (h : ∀ next, K next ≤ L next) :
    Tracks ending c x L := by
  cases hx with
  | outOfFuel hxc => exact .outOfFuel hxc
  | refused e ts rest hxc hrest hts about same =>
    obtain ⟨us, hus⟩ := hts
    exact .refused e ts rest hxc hrest ⟨us, h _ hus⟩ about same
  | done v after ts hxc hrest hts same => exact .done v after ts hxc hrest (h _ hts) same

/-- One part after the other. -/
theorem Tracks.andThen {x : Reader α} {f : α → Reader β} (hx : Tracks ending c x fun _ => D)
    (hf : ∀ v mid, Tracks ending mid (f v) L) (goesOn : (L none).Nonempty) :
    Tracks ending c (x >>= f) fun next => D * L next := by
  obtain ⟨us, hus⟩ := goesOn
  refine hx.bind (fun ts hts => ⟨us, Language.append_mem_mul hts hus⟩) fun v mid ts hts => ?_
  exact (hf v mid).mono fun next us hus => Language.append_mem_mul hts hus

/-- The reader takes nothing, and looks at nothing but where the last token ended. -/
def Still (x : Reader α) : Prop := ∃ g : Nat → α, ∀ ending c, x ending c = .done (g c.lastStop) c

theorem still_pure (v : α) : (Pure.pure v : Reader α).Still := ⟨fun _ => v, fun _ _ => rfl⟩

theorem still_spanFrom (start : Span) : (spanFrom start).Still :=
  ⟨fun stop => ⟨start.start, max stop start.stop⟩, fun _ _ => rfl⟩

theorem Still.map {x : Reader α} (hx : x.Still) (f : α → β) :
    (x >>= fun v => Pure.pure (f v)).Still := by
  obtain ⟨g, hg⟩ := hx
  exact ⟨fun stop => f (g stop), fun ending c => bind_done (hg ending c)⟩

theorem still_exprFrom (start : Span) (form : ExprForm) : (exprFrom start form).Still :=
  (still_spanFrom start).map _

theorem Still.tracks {x : Reader α} (hx : x.Still) (h : [] ∈ L c.next) : Tracks ending c x L := by
  obtain ⟨g, hg⟩ := hx
  exact .done _ c [] (hg _ _) rfl h fun _ _ _ => hg _ _

/-- Nothing is taken for what is made of a value. -/
theorem Tracks.still {x : Reader α} {f : α → Reader β} (hx : Tracks ending c x L)
    (hf : ∀ v, (f v).Still) : Tracks ending c (x >>= f) L := by
  refine hx.bind (fun ts hts => ⟨[], by rwa [List.append_nil]⟩) fun v mid ts hts => ?_
  exact (hf v).tracks (by simpa using hts)

theorem Tracks.map {x : Reader α} (hx : Tracks ending c x L) (f : α → β) :
    Tracks ending c (x >>= fun v => Pure.pure (f v)) L :=
  hx.still fun v => still_pure (f v)

theorem tracks_outOfFuel : Tracks ending c (outOfFuel : Reader α) L := .outOfFuel rfl

theorem tracks_expected (e : Expectation) (goesOn : (L none).Nonempty) :
    Tracks ending c (expected e : Reader α) L := by
  obtain ⟨us, hus⟩ := goesOn
  rcases c with ⟨_ | ⟨t, rest⟩, stop⟩
  · cases ending with
    | complete length =>
      exact .refused _ [] [] rfl rfl ⟨us, hus⟩ ⟨rfl, rfl⟩ fun _ _ => not_beginAlike_nil.elim
    | mistake m =>
      exact .refused _ [] [] rfl rfl ⟨us, hus⟩ rfl fun _ _ => not_beginAlike_nil.elim
  · refine .refused _ [] (t :: rest) rfl rfl ⟨us, hus⟩ ⟨rfl, Or.inl rfl⟩ ?_
    intro ending' rest' alike
    obtain ⟨u, us, us', hu, rfl⟩ := alike.exists_cons
    cases hu
    rfl

theorem tracks_skip {k : Token.Kind} (h : c.next = some k) :
    Tracks ending c skip fun _ => single k := by
  rcases c with ⟨_ | ⟨⟨k', p⟩, rest⟩, stop⟩
  · cases h
  · cases h
    have same (ending' : Ending) {rest rest' : List Token} (alike : BeginAlike rest rest') :
        skip ending' ⟨[⟨k', p⟩] ++ rest', stop⟩ = .done () ⟨rest', p.stop⟩ := by
      obtain ⟨u, us, us', rfl, rfl⟩ := alike.exists_cons
      cases ending' <;> rfl
    rcases rest with _ | ⟨u, rest⟩
    · cases ending with
      | complete length => exact .done () _ [⟨k', p⟩] rfl rfl ⟨p, rfl⟩ fun ending' _ => same ending'
      | mistake m =>
        exact .refused _ [⟨k', p⟩] [] rfl rfl ⟨[], p, rfl⟩ rfl fun _ _ => not_beginAlike_nil.elim
    · exact .done () _ [⟨k', p⟩] rfl rfl ⟨p, rfl⟩ fun ending' _ => same ending'

/-- A token that cannot stand here at all. -/
theorem tracks_refuseHere {cause : SyntaxError.Cause} (some : c.next ≠ none)
    (code : cause.code = .unexpectedToken ∨ cause.code = .strayReturn)
    (goesOn : (L none).Nonempty) :
    Tracks ending c (do refuse cause (← here) : Reader α) L := by
  obtain ⟨us, hus⟩ := goesOn
  rcases c with ⟨_ | ⟨t, rest⟩, stop⟩
  · exact absurd rfl some
  · refine .refused ⟨cause, t.span⟩ [] (t :: rest) rfl rfl ⟨us, hus⟩ ⟨rfl, code⟩ ?_
    intro ending' rest' alike
    obtain ⟨u, us, us', hu, rfl⟩ := alike.exists_cons
    cases hu
    rfl

/-- A reader that does what another one does wherever the next token is the same. -/
theorem Tracks.of_eq {x y : Reader α} (hx : Tracks ending c x L) (eq : y ending c = x ending c)
    (alike : ∀ ending' rest, BeginAlike c.rest rest →
      y ending' ⟨rest, c.lastStop⟩ = x ending' ⟨rest, c.lastStop⟩) : Tracks ending c y L := by
  cases hx with
  | outOfFuel h => exact .outOfFuel (eq.trans h)
  | refused e ts rest h hrest hts about same =>
    refine .refused e ts rest (eq.trans h) hrest hts about fun ending' rest' begin => ?_
    rw [alike ending' _ (by rw [hrest]; exact begin.append ts), same ending' rest' begin]
  | done v after ts h hrest hts same =>
    refine .done v after ts (eq.trans h) hrest hts fun ending' rest' begin => ?_
    rw [alike ending' _ (by rw [hrest]; exact begin.append ts), same ending' rest' begin]

theorem Tracks.afterPeek {f : Option Token.Kind → Reader α} (h : Tracks ending c (f c.next) L) :
    Tracks ending c (peek >>= f) L := by
  refine h.of_eq rfl fun ending' rest alike => ?_
  obtain ⟨t, us, us', hc, rfl⟩ := alike.exists_cons
  change f (some t.kind) _ _ = _
  rw [Cursor.next, hc]
  rfl

theorem Tracks.afterHere {f : Span → Reader α} (h : ∀ start, Tracks ending c (f start) L) :
    Tracks ending c (here >>= f) L := by
  rcases c with ⟨_ | ⟨t, rest⟩, stop⟩
  · cases ending with
    | complete length =>
      exact (h _).of_eq rfl fun _ _ => not_beginAlike_nil.elim
    | mistake m => exact (h _).of_eq rfl fun _ _ => not_beginAlike_nil.elim
  · refine (h t.span).of_eq rfl fun ending' rest' alike => ?_
    obtain ⟨u, us, us', hu, rfl⟩ := alike.exists_cons
    cases hu
    rfl

/-- A branch on whether a sign is next. -/
theorem Tracks.afterAt {s : Sign} {f : Bool → Reader α}
    (yes : c.next = some (.sign s) → Tracks ending c (f true) L)
    (no : Tracks ending c (f false) L) : Tracks ending c (at? s >>= f) L := by
  change Tracks ending c (peek >>= fun k => f (decide (k = some (.sign s)))) L
  apply Tracks.afterPeek
  by_cases h : c.next = some (.sign s)
  · simpa [h] using yes h
  · simpa [h] using no

/-- A reader that looks the next token up, and goes on as that says. -/
theorem Tracks.afterLook {look : Token.Kind → Option β} {f : Option β → Reader α}
    (some : ∀ k b, c.next = some k → look k = some b → Tracks ending c (f (some b)) L)
    (none : Tracks ending c (f none) L) :
    Tracks ending c ((do return (← peek).bind look) >>= f) L := by
  change Tracks ending c (peek >>= fun k => f (k.bind look)) L
  apply Tracks.afterPeek
  cases h : c.next.bind look with
  | none => exact none
  | some b =>
    obtain ⟨k, hk, hb⟩ := Option.bind_eq_some_iff.1 h
    exact some k b hk hb

theorem tracks_sign (s : Sign) : Tracks ending c (sign s) fun _ => single (.sign s) :=
  Tracks.afterAt tracks_skip (tracks_expected _ nonempty_single)

theorem tracks_name : Tracks ending c name fun _ => singleName := by
  apply Tracks.afterPeek
  split
  · next s h => exact ((tracks_skip h).map _).mono fun _ _ ⟨p, hp⟩ => ⟨s, p, hp⟩
  · exact tracks_expected _ nonempty_singleName

/-! ## Parts of expressions -/

/-- From here on the reader tracks the language. -/
def TracksAll (ending : Ending) (x : Reader α) (D : Language Token) : Prop :=
  ∀ c, Tracks ending c x fun _ => D

variable {e : Reader Expr} {es : Reader (List Expr)}

theorem tracks_parenthesized (he : TracksAll ending e (phrases .expr)) :
    Tracks ending c (parenthesized e) fun _ => inParens (phrases .expr) := by
  apply (tracks_sign _).andThen (fun _ _ => ?_) (by simp)
  apply (he _).andThen (fun _ _ => ?_) (by simp)
  exact (tracks_sign _).map _

theorem tracks_bracketed (he : TracksAll ending e (phrases .expr)) :
    Tracks ending c (bracketed e) fun _ => inBrackets (phrases .expr) := by
  apply (tracks_sign _).andThen (fun _ _ => ?_) (by simp)
  apply (he _).andThen (fun _ _ => ?_) (by simp)
  exact (tracks_sign _).map _

theorem tracks_listUntil (close : Sign) (hes : TracksAll ending es (phrases .items)) :
    Tracks ending c (listUntil close es) fun _ => phrases .list * single (.sign close) := by
  refine Tracks.afterAt (fun _ => ?_) ?_
  · apply ((tracks_sign close).map _).mono
    intro next
    calc single (.sign close) = 1 * single (.sign close) := (one_mul _).symm
      _ ≤ phrases .list * single (.sign close) := mul_le_mul' noItems_rule le_rfl
  · refine ((hes c).andThen (fun _ _ => (tracks_sign close).map _) (by simp)).mono fun _ => ?_
    exact mul_le_mul' someItems_rule le_rfl

theorem tracks_arguments (hes : TracksAll ending es (phrases .items)) :
    Tracks ending c (arguments es) fun _ => inParens (phrases .list) :=
  (tracks_sign _).andThen (fun _ _ => tracks_listUntil _ hes) (by simp)

/-- What follows a name that is no statement by itself. -/
theorem tracks_nameTail (s : String) (he : TracksAll ending e (phrases .expr))
    (hes : TracksAll ending es (phrases .items)) :
    Tracks ending c (nameTail e es s) fun _ =>
      1 + (inParens (phrases .list) + inBrackets (phrases .expr)) := by
  apply Tracks.afterPeek
  split
  · refine ((tracks_arguments hes).map _).mono fun _ us hus => ?_
    exact Or.inr (Or.inl hus)
  · refine ((tracks_bracketed he).map _).mono fun _ us hus => ?_
    exact Or.inr (Or.inr hus)
  · exact (still_pure _).tracks (Or.inl rfl)

/-- A keyword with one operand behind it. -/
theorem tracks_operand {k : Keyword} {form : Expr → ExprForm} {start : Span}
    (he : TracksAll ending e (phrases .expr)) (hk : c.next = some (.keyword k))
    (hf : operandForm? k = some form) :
    Tracks ending c (do skip; let v ← e; exprFrom start (form v)) fun _ =>
      phrases .valueForm := by
  refine Tracks.mono ?_ fun _ => operandForm_rule hf
  apply (tracks_skip hk).andThen (fun _ _ => ?_) (by simp)
  exact (he _).still fun _ => still_exprFrom _ _

/-- A keyword with the name of an array and an operand behind it. -/
theorem tracks_namedOperand {k : Keyword} {form : String → Expr → ExprForm} {start : Span}
    (he : TracksAll ending e (phrases .expr)) (hk : c.next = some (.keyword k))
    (hf : arrayForm? k = some form) :
    Tracks ending c (do skip; let a ← name; let v ← e; exprFrom start (form a v)) fun _ =>
      phrases .valueForm := by
  refine Tracks.mono ?_ fun _ => arrayForm_rule hf
  apply (tracks_skip hk).andThen (fun _ _ => ?_) (by simp)
  apply tracks_name.andThen (fun _ _ => ?_) (by simp)
  exact (he _).still fun _ => still_exprFrom _ _

theorem tracks_valueForm (he : TracksAll ending e (phrases .expr)) :
    Tracks ending c (valueForm e) fun _ => phrases .valueForm := by
  refine Tracks.afterHere fun start => Tracks.afterPeek ?_
  split
  · next h => exact tracks_operand he h rfl
  · next h => exact tracks_namedOperand he h rfl
  · next h => exact tracks_namedOperand he h rfl
  · next h =>
    refine Tracks.mono ?_ fun _ => size_rule
    apply (tracks_skip h).andThen (fun _ _ => ?_) (by simp)
    exact tracks_name.still fun _ => still_exprFrom _ _
  · next h => exact tracks_operand he h rfl
  · next h => exact tracks_operand he h rfl
  · next h => exact tracks_operand he h rfl
  · next h => exact tracks_operand he h rfl
  · exact tracks_expected _ (by simp)

/-! ## Expressions -/

/-- The readers of expressions track what they are to read, to this depth. -/
structure TracksTo (ending : Ending) (n : Nat) : Prop where
  expr : TracksAll ending (Reader.expr n) (phrases .expr)
  operations (left : Expr) : TracksAll ending (Reader.operations n left) operationRows
  unary : TracksAll ending (Reader.unary n) (phrases .unary)
  primary : TracksAll ending (Reader.primary n) (phrases .primary)
  items : TracksAll ending (Reader.items n) (phrases .items)

namespace TracksTo

variable {n : Nat}

theorem expr_succ (tracks : TracksTo ending n) :
    TracksAll ending (Reader.expr (n + 1)) (phrases .expr) := by
  intro c
  unfold Reader.expr
  refine Tracks.mono ?_ fun _ => expr_rule
  exact (tracks.unary c).andThen (fun left mid => tracks.operations left mid) (by simp)

theorem operations_succ (tracks : TracksTo ending n) (left : Expr) :
    TracksAll ending (Reader.operations (n + 1) left) operationRows := by
  intro c
  unfold Reader.operations
  refine Tracks.afterLook (fun k op hk hop => ?_) ?_
  · refine Tracks.mono ?_ fun _ => operation_rule hop
    apply (tracks_skip hk).andThen (fun _ _ => ?_) (by simp)
    exact (tracks.unary _).andThen (fun _ _ => tracks.operations _ _) (by simp)
  · exact (still_pure _).tracks nil_mem_operationRows

theorem unary_succ (tracks : TracksTo ending n) :
    TracksAll ending (Reader.unary (n + 1)) (phrases .unary) := by
  intro c
  unfold Reader.unary
  refine Tracks.afterLook (fun k op hk hop => ?_) ?_
  · refine Tracks.afterHere fun start => Tracks.mono ?_ fun _ => operator_rule hop
    exact (tracks_skip hk).andThen (fun _ _ => (tracks.unary _).map _) (by simp)
  · exact (tracks.primary c).mono fun _ => primary_rule

theorem primary_succ (tracks : TracksTo ending n) :
    TracksAll ending (Reader.primary (n + 1)) (phrases .primary) := by
  intro c
  unfold Reader.primary
  refine Tracks.afterHere fun start => Tracks.afterPeek ?_
  have literal {k : Token.Kind} {form : ExprForm} (hk : c.next = some k)
      (rule : single k ≤ phrases .primary) :
      Tracks ending c (do skip; exprFrom start form) fun _ => phrases .primary :=
    ((tracks_skip hk).still fun _ => still_exprFrom _ _).mono fun _ => rule
  split
  · next h => exact literal h (token_rule fun _ => .number)
  · next h => exact literal h (token_rule fun _ => .text)
  · next h => exact literal h (token_rule fun _ => .boolean)
  · next h => exact literal h (token_rule fun _ => .void)
  · next s h =>
    refine Tracks.mono ?_ fun _ => nameTail_rule s
    apply (tracks_skip h).andThen (fun _ _ => ?_) (by simp)
    exact (tracks_nameTail s tracks.expr tracks.items).still fun _ => still_exprFrom _ _
  · next h =>
    refine Tracks.mono ?_ fun _ => array_rule
    apply (tracks_skip h).andThen (fun _ _ => ?_) (by simp)
    exact (tracks_listUntil _ tracks.items).still fun _ => still_exprFrom _ _
  · refine Tracks.mono ?_ fun _ => parens_rule
    exact (tracks_parenthesized tracks.expr).still fun _ => still_exprFrom _ _
  · exact (tracks_valueForm tracks.expr).mono fun _ => valueForm_rule
  · exact tracks_expected _ (by simp)

theorem items_succ (tracks : TracksTo ending n) :
    TracksAll ending (Reader.items (n + 1)) (phrases .items) := by
  intro c
  unfold Reader.items
  refine Tracks.mono ?_ fun _ => items_rule
  apply (tracks.expr c).andThen (fun e mid => ?_) (by simp)
  refine Tracks.afterAt (fun hcomma => ?_) ?_
  · refine Tracks.mono ?_ fun _ => le_add_left le_rfl
    exact (tracks_skip hcomma).andThen (fun _ _ => (tracks.items _).map _) (by simp)
  · exact (still_pure _).tracks (Or.inl rfl)

end TracksTo

theorem tracksTo (ending : Ending) (n : Nat) : TracksTo ending n := by
  induction n with
  | zero =>
    exact ⟨fun _ => tracks_outOfFuel, fun _ _ => tracks_outOfFuel, fun _ => tracks_outOfFuel,
      fun _ => tracks_outOfFuel, fun _ => tracks_outOfFuel⟩
  | succ n tracks =>
    exact ⟨tracks.expr_succ, tracks.operations_succ, tracks.unary_succ, tracks.primary_succ,
      tracks.items_succ⟩

/-! ## Parts of statements -/

theorem tracks_names (n : Nat) : TracksAll ending (names n) nameRows := by
  induction n with
  | zero => exact fun _ => tracks_outOfFuel
  | succ n ih =>
    intro c
    unfold names
    refine Tracks.mono ?_ fun _ => names_rule
    apply tracks_name.andThen (fun s mid => ?_) (by simp)
    refine Tracks.afterAt (fun hcomma => ?_) ?_
    · refine Tracks.mono ?_ fun _ => le_add_left le_rfl
      exact (tracks_skip hcomma).andThen (fun _ _ => (ih _).map _) (by simp)
    · exact (still_pure _).tracks (Or.inl rfl)

theorem tracks_params {ns : Reader (List String)} (hns : TracksAll ending ns nameRows) :
    Tracks ending c (params ns) fun _ => inParens paramRows := by
  apply (tracks_sign _).andThen (fun _ _ => ?_) (by simp)
  refine Tracks.afterAt (fun _ => ?_) ?_
  · apply ((tracks_sign _).map _).mono
    intro next
    calc single (.sign .rightParen) = 1 * single (.sign .rightParen) := (one_mul _).symm
      _ ≤ paramRows * single (.sign .rightParen) := mul_le_mul' noParams_rule le_rfl
  · refine ((hns _).andThen (fun _ _ => (tracks_sign _).map _) (by simp)).mono fun _ => ?_
    exact mul_le_mul' someParams_rule le_rfl

variable {inFunction : Bool} {body : Reader (List Stmt)}

/-- From here on statements are read, up to a closing brace. -/
def TracksBody (ending : Ending) (inFunction : Bool) (body : Reader (List Stmt)) : Prop :=
  TracksAll ending body (stmtRows inFunction (some (.sign .rightBrace)))

theorem tracks_block (hb : TracksBody ending inFunction body) :
    TracksAll ending (block body) (blocks inFunction) := by
  intro c
  refine Tracks.mono ?_ fun _ => block_rule
  apply (tracks_sign _).andThen (fun _ _ => ?_) (by simp)
  apply (hb _).andThen (fun _ _ => ?_) (by simp)
  exact (tracks_sign _).map _

theorem tracks_declaration (immutable : Bool)
    (hk : c.next = some (.keyword (declarer immutable)))
    (he : TracksAll ending e (phrases .expr)) :
    Tracks ending c (declaration e immutable) (forms inFunction) := by
  refine Tracks.mono ?_ fun _ => declare_rule immutable
  apply (tracks_skip hk).andThen (fun _ _ => ?_) (by simp)
  apply tracks_name.andThen (fun _ _ => ?_) (by simp)
  exact (tracks_sign _).andThen (fun _ _ => (he _).map _) (by simp)

theorem tracks_printing (channel : Channel) (hk : c.next = some (.keyword (printer channel)))
    (he : TracksAll ending e (phrases .expr)) :
    Tracks ending c (printing e channel) (forms inFunction) := by
  refine Tracks.mono ?_ fun _ => print_rule channel
  exact (tracks_skip hk).andThen (fun _ _ => (he _).map _) (by simp)

theorem tracks_branching (hk : c.next = some (.keyword .ifThen))
    (he : TracksAll ending e (phrases .expr)) (hb : TracksBody ending inFunction body) :
    Tracks ending c (branching e body) (forms inFunction) := by
  refine Tracks.mono ?_ fun _ => branch_rule
  apply (tracks_skip hk).andThen (fun _ _ => ?_) (by simp)
  apply (tracks_parenthesized he).andThen (fun _ _ => ?_) (by simp)
  apply (tracks_block hb _).andThen (fun _ mid => ?_) (by simp)
  apply Tracks.afterPeek
  split
  · next hElse =>
    refine Tracks.mono ?_ fun _ => le_add_left le_rfl
    exact (tracks_skip hElse).andThen (fun _ _ => (tracks_block hb _).map _) (by simp)
  · exact (still_pure _).tracks (Or.inl rfl)

theorem tracks_counting (hk : c.next = some (.keyword .loop))
    (he : TracksAll ending e (phrases .expr)) (hb : TracksBody ending inFunction body) :
    Tracks ending c (counting e body) (forms inFunction) := by
  refine Tracks.mono ?_ fun _ => loop_rule
  apply (tracks_skip hk).andThen (fun _ _ => ?_) (by simp)
  apply (tracks_sign _).andThen (fun _ _ => ?_) (by simp)
  apply tracks_name.andThen (fun _ _ => ?_) (by simp)
  apply (tracks_sign _).andThen (fun _ _ => ?_) (by simp)
  apply (he _).andThen (fun _ _ => ?_) (by simp)
  apply (tracks_sign _).andThen (fun _ _ => ?_) (by simp)
  apply (he _).andThen (fun _ _ => ?_) (by simp)
  exact (tracks_sign _).andThen (fun _ _ => (tracks_block hb _).map _) (by simp)

theorem tracks_repeating (hk : c.next = some (.keyword .while))
    (he : TracksAll ending e (phrases .expr)) (hb : TracksBody ending inFunction body) :
    Tracks ending c (repeating e body) (forms inFunction) := by
  refine Tracks.mono ?_ fun _ => while_rule
  apply (tracks_skip hk).andThen (fun _ _ => ?_) (by simp)
  exact (tracks_parenthesized he).andThen (fun _ _ => (tracks_block hb _).map _) (by simp)

theorem tracks_definition {ns : Reader (List String)} (hk : c.next = some (.keyword .func))
    (hns : TracksAll ending ns nameRows) (hb : TracksBody ending true body) :
    Tracks ending c (definition ns body) (forms inFunction) := by
  refine Tracks.mono ?_ fun _ => function_rule
  apply (tracks_skip hk).andThen (fun _ _ => ?_) (by simp)
  apply tracks_name.andThen (fun _ _ => ?_) (by simp)
  exact (tracks_params hns).andThen (fun _ _ => (tracks_block hb _).map _) (by simp)

theorem tracks_connecting (hk : c.next = some (.keyword .connect)) :
    Tracks ending c connecting (forms inFunction) := by
  refine Tracks.mono ?_ fun _ => connect_rule
  apply (tracks_skip hk).andThen (fun _ mid => ?_) (by simp)
  apply Tracks.afterPeek
  split
  · next s h => exact ((tracks_skip h).map _).mono fun _ _ ⟨p, hp⟩ => ⟨s, p, hp⟩
  · exact tracks_expected _ (by simp)

theorem tracks_nameStatement {s : String} (hs : c.next = some (.name s))
    (he : TracksAll ending e (phrases .expr)) (hes : TracksAll ending es (phrases .items)) :
    Tracks ending c (nameStatement e es s) (forms inFunction) := by
  refine Tracks.afterHere fun start => Tracks.mono ?_ fun _ => nameStmt_rule s
  apply (tracks_skip hs).andThen (fun _ mid => ?_) (by simp)
  apply Tracks.afterPeek
  split
  · refine Tracks.mono ?_ fun _ => le_add_right le_rfl
    exact (tracks_arguments hes).still fun _ => (still_exprFrom _ _).map _
  · refine Tracks.mono ?_ fun _ => le_add_left (le_add_right le_rfl)
    exact (tracks_bracketed he).still fun _ => (still_exprFrom _ _).map _
  · next h =>
    refine Tracks.mono ?_ fun _ => le_add_left (le_add_left le_rfl)
    exact (tracks_skip h).andThen (fun _ _ => (he _).map _) (by simp)
  · exact tracks_expected _ (by simp)

/-- A keyword with the name of what is to go. -/
theorem tracks_deletion {k : Keyword} {form : String → StmtForm} (hk : c.next = some (.keyword k))
    (rule : ∀ next, single (.keyword k) * singleName ≤ forms inFunction next) :
    Tracks ending c (do skip; return form (← name)) (forms inFunction) := by
  refine Tracks.mono ?_ rule
  exact (tracks_skip hk).andThen (fun _ _ => tracks_name.map _) (by simp)

theorem tracks_returning (hk : c.next = some (.keyword .return))
    (he : TracksAll ending e (phrases .expr)) :
    Tracks ending c (returning e inFunction) (forms inFunction) := by
  unfold returning
  split
  · next h =>
    subst h
    refine (tracks_skip hk).bind (fun ts hts => ⟨[], ?_⟩) fun _ mid ts hts => ?_
    · rw [List.append_nil]
      exact returnNothing_rule rfl hts
    have nothing (h : omitsValue mid.next = true) :
        Tracks ending mid (Pure.pure (StmtForm.return none)) fun next =>
          behind ts (forms true next) := by
      apply (still_pure _).tracks
      rw [mem_behind, List.append_nil]
      exact returnNothing_rule h hts
    have value : Tracks ending mid (do return StmtForm.return (some (← e)))
        fun next => behind ts (forms true next) := by
      refine ((he mid).map _).mono fun next us hus => ?_
      exact returnValue_rule (Language.append_mem_mul hts hus)
    apply Tracks.afterPeek
    split
    · next h => exact nothing (by rw [h]; rfl)
    · next h => exact nothing (by rw [h]; rfl)
    · next k h =>
      split
      · next only => exact nothing (by rw [h]; exact only)
      · exact value
    · exact value
  · exact tracks_refuseHere (by rw [hk]; simp) (Or.inr rfl) nonempty_forms

theorem tracks_keywordStatement {ns : Reader (List String)} {functionBody : Reader (List Stmt)}
    {k : Keyword} (hk : c.next = some (.keyword k)) (he : TracksAll ending e (phrases .expr))
    (hns : TracksAll ending ns nameRows) (hb : TracksBody ending inFunction body)
    (hf : TracksBody ending true functionBody) :
    Tracks ending c (keywordStatement e ns body functionBody inFunction k)
      (forms inFunction) := by
  unfold keywordStatement
  split
  · exact tracks_declaration false hk he
  · exact tracks_declaration true hk he
  · exact tracks_printing .info hk he
  · exact tracks_printing .error hk he
  · exact tracks_printing .warning hk he
  · exact tracks_branching hk he hb
  · exact tracks_counting hk he hb
  · exact tracks_repeating hk he hb
  · exact tracks_definition hk hns hf
  · exact tracks_returning hk he
  · exact tracks_deletion hk fun _ => deletion_rule fun _ _ => .deleteVariable
  · exact tracks_deletion hk fun _ => deletion_rule fun _ _ => .deleteFunction
  · exact tracks_connecting hk
  · refine Tracks.mono ?_ fun _ => async_rule
    exact (tracks_skip hk).andThen (fun _ _ => (tracks_block hb _).map _) (by simp)
  · split
    · exact ((tracks_valueForm he).map _).mono fun _ => valueFormStmt_rule
    · exact tracks_expected _ nonempty_forms

/-! ## Statements -/

/-- A row of statements goes on behind a statement. If it takes anything, that is what is next
to the statement; else the row can end there. -/
theorem Tracks.behindStmt {x : Reader α} {stop : Option Token.Kind} {ts : List Token}
    (hx : Tracks ending c x fun _ => stmtRows inFunction stop) (hts : ts ∈ forms inFunction c.next)
    (omits : omitsValue stop = true) :
    Tracks ending c x fun _ => behind ts (stmtRows inFunction stop) := by
  have goesOn {us rest : List Token} (vs : List Token) (hrest : c.rest = us ++ rest)
      (some : us ≠ []) : c.next = ahead (us ++ vs) stop := by
    obtain ⟨u, us, rfl⟩ := List.exists_cons_of_ne_nil some
    rw [Cursor.next, hrest]
    rfl
  cases hx with
  | outOfFuel h => exact .outOfFuel h
  | refused e us rest h hrest hus about same =>
    obtain ⟨vs, hvs⟩ := hus
    refine .refused e us rest h hrest ?_ about same
    by_cases none : us = []
    · exact ⟨[], cons_rule hts (by simp [none]) omits (by simp [none])⟩
    · exact ⟨vs, cons_rule hts hvs omits fun _ => goesOn vs hrest none⟩
  | done v after us h hrest hus same =>
    refine .done v after us h hrest (cons_rule hts hus omits fun some => ?_) same
    simpa using goesOn [] hrest some

/-- A statement and the statements behind it. -/
theorem Tracks.cons {x : Reader Stmt} {y : Reader (List Stmt)} {stop : Option Token.Kind}
    (hx : Tracks ending c x (forms inFunction)) (hy : TracksAll ending y (stmtRows inFunction stop))
    (omits : omitsValue stop = true) :
    Tracks ending c (do let s ← x; let ss ← y; return s :: ss) fun _ =>
      stmtRows inFunction stop := by
  refine hx.bind (fun ts hts => ⟨[], cons_rule hts nil_mem_stmtRows omits nofun⟩) ?_
  exact fun s mid ts hts => ((hy mid).behindStmt hts omits).map _

theorem tracks_statements (n : Nat) :
    (∀ c inFunction, Tracks ending c (stmt n inFunction) (forms inFunction)) ∧
    (∀ inFunction, TracksBody ending inFunction (stmts n inFunction)) := by
  induction n with
  | zero => exact ⟨fun _ _ => tracks_outOfFuel, fun _ _ => tracks_outOfFuel⟩
  | succ n ih =>
    obtain ⟨ihStmt, ihStmts⟩ := ih
    have tracks := tracksTo ending n
    refine ⟨fun c inFunction => ?_, fun inFunction c => ?_⟩
    · unfold stmt
      refine Tracks.afterHere fun start => Tracks.afterPeek ?_
      have whole {x : Reader StmtForm} (hx : Tracks ending c x (forms inFunction)) :
          Tracks ending c (do let form ← x; return Stmt.at (← spanFrom start) form)
            (forms inFunction) :=
        hx.still fun _ => (still_spanFrom _).map _
      split
      · next h =>
        exact whole (tracks_keywordStatement h tracks.expr (tracks_names n) (ihStmts _)
          (ihStmts _))
      · next h => exact whole (tracks_nameStatement h tracks.expr tracks.items)
      · exact whole (tracks_expected _ nonempty_forms)
    · unfold stmts
      apply Tracks.afterPeek
      split
      · exact tracks_expected _ nonempty_stmtRows
      · exact (still_pure _).tracks nil_mem_stmtRows
      · exact (ihStmt c inFunction).cons (ihStmts inFunction) rfl

theorem tracks_program (n : Nat) : TracksAll ending (program n) (stmtRows false none) := by
  induction n with
  | zero => exact fun _ => tracks_outOfFuel
  | succ n ih =>
    intro c
    unfold program
    apply Tracks.afterPeek
    split
    · exact (still_pure _).tracks nil_mem_stmtRows
    · exact ((tracks_statements n).1 c false).cons ih rfl

end Reader

end BraceScript
