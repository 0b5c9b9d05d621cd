-- Trees whose spans have been moved. A move takes every offset to another one
-- and keeps their order. Moved to one and the same offset, two trees are equal
-- if they differ in nothing but where they stand.
import BraceScript.Tree

namespace BraceScript

/-! ## Moves -/

def Span.move (g : Nat → Nat) (s : Span) : Span := ⟨g s.start, g s.stop⟩

def Token.move (g : Nat → Nat) (t : Token) : Token := { t with span := t.span.move g }

@[simp] theorem Token.move_mk (g : Nat → Nat) (k : Token.Kind) (p : Span) :
    (⟨k, p⟩ : Token).move g = ⟨k, p.move g⟩ := rfl

theorem map_kind_move (g : Nat → Nat) (ts : List Token) :
    (ts.map (Token.move g)).map Token.kind = ts.map Token.kind := by
  rw [List.map_map]
  rfl

mutual

def Expr.move (g : Nat → Nat) : Expr → Expr
  | .at span form => .at (span.move g) (form.move g)

def ExprForm.move (g : Nat → Nat) : ExprForm → ExprForm
  | .number x => .number x
  | .text s => .text s
  | .boolean b => .boolean b
  | .void => .void
  | .name s => .name s
  | .array es => .array (moveExprs g es)
  | .binary op l r => .binary op (l.move g) (r.move g)
  | .unary op e => .unary op (e.move g)
  | .call s es => .call s (moveExprs g es)
  | .index s e => .index s (e.move g)
  | .read e => .read (e.move g)
  | .append s e => .append s (e.move g)
  | .remove s e => .remove s (e.move g)
  | .size s => .size s
  | .toJson e => .toJson (e.move g)
  | .parseJson e => .parseJson (e.move g)
  | .math f e => .math f (e.move g)
  | .textual f e => .textual f (e.move g)

def moveExprs (g : Nat → Nat) : List Expr → List Expr
  | [] => []
  | e :: es => e.move g :: moveExprs g es

end

mutual

def Stmt.move (g : Nat → Nat) : Stmt → Stmt
  | .at span form => .at (span.move g) (form.move g)

def StmtForm.move (g : Nat → Nat) : StmtForm → StmtForm
  | .declare s e immutable => .declare s (e.move g) immutable
  | .assign s e => .assign s (e.move g)
  | .print channel e => .print channel (e.move g)
  | .branch e ss other => .branch (e.move g) (moveStmts g ss) (moveOther g other)
  | .loop s a b ss => .loop s (a.move g) (b.move g) (moveStmts g ss)
  | .while e ss => .while (e.move g) (moveStmts g ss)
  | .function s params ss => .function s params (moveStmts g ss)
  | .return e => .return (e.map (Expr.move g))
  | .deleteVariable s => .deleteVariable s
  | .deleteFunction s => .deleteFunction s
  | .connect s => .connect s
  | .async ss => .async (moveStmts g ss)
  | .value e => .value (e.move g)

def moveStmts (g : Nat → Nat) : List Stmt → List Stmt
  | [] => []
  | s :: ss => s.move g :: moveStmts g ss

def moveOther (g : Nat → Nat) : Option (List Stmt) → Option (List Stmt)
  | none => none
  | some ss => some (moveStmts g ss)

end

variable {g h : Nat → Nat}

@[simp] theorem moveExprs_eq_map (es : List Expr) : moveExprs g es = es.map (Expr.move g) := by
  induction es with
  | nil => simp [moveExprs]
  | cons e es ih => simp [moveExprs, ih]

@[simp] theorem moveStmts_eq_map (ss : List Stmt) : moveStmts g ss = ss.map (Stmt.move g) := by
  induction ss with
  | nil => simp [moveStmts]
  | cons s ss ih => simp [moveStmts, ih]

@[simp] theorem moveOther_eq_map (other : Option (List Stmt)) :
    moveOther g other = other.map (List.map (Stmt.move g)) := by
  cases other <;> simp [moveOther]

@[simp] theorem Expr.move_at (span : Span) (form : ExprForm) :
    (Expr.at span form).move g = .at (span.move g) (form.move g) := by
  rw [Expr.move]

@[simp] theorem Stmt.move_at (span : Span) (form : StmtForm) :
    (Stmt.at span form).move g = .at (span.move g) (form.move g) := by
  rw [Stmt.move]

@[simp] theorem Expr.span_move (e : Expr) : (e.move g).span = e.span.move g := by
  cases e
  simp [Expr.span]

@[simp] theorem Expr.form_move (e : Expr) : (e.move g).form = e.form.move g := by
  cases e
  simp [Expr.form]

@[simp] theorem Stmt.span_move (s : Stmt) : (s.move g).span = s.span.move g := by
  cases s
  simp [Stmt.span]

/-! ## One move after the other -/

@[simp] theorem Span.move_move (s : Span) : (s.move g).move h = s.move (h ∘ g) := rfl

theorem Token.move_back (t : Token) (n : Nat) : (t.move (· + n)).move (· - n) = t := by
  simp [Token.move, Span.move]

theorem map_move_back (n : Nat) (ts : List Token) :
    (ts.map (Token.move (· + n))).map (Token.move (· - n)) = ts := by
  rw [List.map_map]
  exact List.map_id'' (fun t => t.move_back n) ts

mutual

theorem Expr.move_move : (e : Expr) → (e.move g).move h = e.move (h ∘ g)
  | .at span form => by simp [ExprForm.move_move form]

theorem ExprForm.move_move : (form : ExprForm) → (form.move g).move h = form.move (h ∘ g)
  | .number _ | .text _ | .boolean _ | .void | .name _ | .size _ => by simp [ExprForm.move]
  | .array es | .call _ es => by simpa [ExprForm.move] using moveExprs_move es
  | .binary _ l r => by simp [ExprForm.move, Expr.move_move l, Expr.move_move r]
  | .unary _ e | .index _ e | .read e | .append _ e | .remove _ e | .toJson e | .parseJson e
  | .math _ e | .textual _ e => by simp [ExprForm.move, Expr.move_move e]

theorem moveExprs_move : (es : List Expr) →
    ∀ e ∈ es, (Expr.move h ∘ Expr.move g) e = e.move (h ∘ g)
  | [] => by simp
  | e :: es => by
    simpa [Expr.move_move e] using moveExprs_move es

end

mutual

theorem Stmt.move_move : (s : Stmt) → (s.move g).move h = s.move (h ∘ g)
  | .at span form => by simp [StmtForm.move_move form]

theorem StmtForm.move_move : (form : StmtForm) → (form.move g).move h = form.move (h ∘ g)
  | .declare _ e _ | .assign _ e | .print _ e | .value e => by
    simp [StmtForm.move, Expr.move_move e]
  | .branch e ss none => by
    simpa [StmtForm.move, Expr.move_move e] using moveStmts_move ss
  | .branch e ss (some ss') => by
    simpa [StmtForm.move, Expr.move_move e] using ⟨moveStmts_move ss, moveStmts_move ss'⟩
  | .return e => by cases e <;> simp [StmtForm.move, Expr.move_move]
  | .loop _ a b ss => by
    simpa [StmtForm.move, Expr.move_move a, Expr.move_move b] using moveStmts_move ss
  | .while e ss => by simpa [StmtForm.move, Expr.move_move e] using moveStmts_move ss
  | .function _ _ ss | .async ss => by simpa [StmtForm.move] using moveStmts_move ss
  | .deleteVariable _ | .deleteFunction _ | .connect _ => by simp [StmtForm.move]

theorem moveStmts_move : (ss : List Stmt) →
    ∀ s ∈ ss, (Stmt.move h ∘ Stmt.move g) s = s.move (h ∘ g)
  | [] => by simp
  | s :: ss => by
    simpa [Stmt.move_move s] using moveStmts_move ss

end

/-- Moves that keep the order of the offsets. -/
def KeepsOrder (g : Nat → Nat) : Prop := ∀ a b, a ≤ b → g a ≤ g b

theorem KeepsOrder.min (order : KeepsOrder g) (a b : Nat) :
    g (Min.min a b) = Min.min (g a) (g b) := by
  rcases Nat.le_total a b with hle | hle
  · rw [Nat.min_eq_left hle, Nat.min_eq_left (order a b hle)]
  · rw [Nat.min_eq_right hle, Nat.min_eq_right (order b a hle)]

theorem KeepsOrder.max (order : KeepsOrder g) (a b : Nat) :
    g (Max.max a b) = Max.max (g a) (g b) := by
  rcases Nat.le_total a b with hle | hle
  · rw [Nat.max_eq_right hle, Nat.max_eq_right (order a b hle)]
  · rw [Nat.max_eq_left hle, Nat.max_eq_left (order b a hle)]

theorem keepsOrder_add (n : Nat) : KeepsOrder (· + n) :=
  fun _ _ hle => Nat.add_le_add_right hle n

theorem keepsOrder_sub (n : Nat) : KeepsOrder (· - n) :=
  fun _ _ hle => Nat.sub_le_sub_right hle n

theorem keepsOrder_hold : KeepsOrder Span.hold :=
  fun _ _ hle => by simp only [Span.hold]; omega

theorem Span.move_merge (order : KeepsOrder g) (a b : Span) :
    (a.merge b).move g = (a.move g).merge (b.move g) := by
  simp [Span.move, Span.merge, order.min, order.max]

/-! ## Trees without places -/

def Expr.bare (e : Expr) : Expr := e.move fun _ => 0

def ExprForm.bare (form : ExprForm) : ExprForm := form.move fun _ => 0

def Stmt.bare (s : Stmt) : Stmt := s.move fun _ => 0

def StmtForm.bare (form : StmtForm) : StmtForm := form.move fun _ => 0

@[simp] theorem Stmt.bare_move (s : Stmt) : (s.move g).bare = s.bare :=
  s.move_move

theorem Expr.move_zero : (Expr.move fun _ => 0) = Expr.bare := rfl

theorem Stmt.move_zero : (Stmt.move fun _ => 0) = Stmt.bare := rfl

theorem Expr.bare_at_form (e : Expr) (p : Span) : (Expr.at p e.form).bare = e.bare := by
  cases e
  simp [bare, Span.move, form]

/-- The same form, and parts that differ in nothing but their places. -/
inductive ExprForm.Alike : ExprForm → ExprForm → Prop where
  | number {x} : Alike (.number x) (.number x)
  | text {s} : Alike (.text s) (.text s)
  | boolean {b} : Alike (.boolean b) (.boolean b)
  | void : Alike .void .void
  | name {s} : Alike (.name s) (.name s)
  | array {es es'} : es.map Expr.bare = es'.map Expr.bare → Alike (.array es) (.array es')
  | binary {op l l' r r'} : l.bare = l'.bare → r.bare = r'.bare →
    Alike (.binary op l r) (.binary op l' r')
  | unary {op e e'} : e.bare = e'.bare → Alike (.unary op e) (.unary op e')
  | call {s es es'} : es.map Expr.bare = es'.map Expr.bare → Alike (.call s es) (.call s es')
  | index {s e e'} : e.bare = e'.bare → Alike (.index s e) (.index s e')
  | read {e e'} : e.bare = e'.bare → Alike (.read e) (.read e')
  | append {s e e'} : e.bare = e'.bare → Alike (.append s e) (.append s e')
  | remove {s e e'} : e.bare = e'.bare → Alike (.remove s e) (.remove s e')
  | size {s} : Alike (.size s) (.size s)
  | toJson {e e'} : e.bare = e'.bare → Alike (.toJson e) (.toJson e')
  | parseJson {e e'} : e.bare = e'.bare → Alike (.parseJson e) (.parseJson e')
  | math {f e e'} : e.bare = e'.bare → Alike (.math f e) (.math f e')
  | textual {f e e'} : e.bare = e'.bare → Alike (.textual f e) (.textual f e')

theorem ExprForm.alike_of_bare {form form' : ExprForm} (h : form.bare = form'.bare) :
    form.Alike form' := by
  cases form <;> cases form' <;>
    simp only [bare, move, moveExprs_eq_map, reduceCtorEq, number.injEq, text.injEq,
      boolean.injEq, name.injEq, array.injEq, binary.injEq, unary.injEq, call.injEq, index.injEq,
      read.injEq, append.injEq, remove.injEq, size.injEq, toJson.injEq, parseJson.injEq,
      math.injEq, textual.injEq] at h
  case void.void => exact .void
  case number.number | text.text | boolean.boolean | name.name | size.size =>
    subst h
    constructor
  case array.array => exact .array h
  case read.read => exact .read h
  case toJson.toJson => exact .toJson h
  case parseJson.parseJson => exact .parseJson h
  case binary.binary =>
    obtain ⟨rfl, hl, hr⟩ := h
    exact .binary hl hr
  case unary.unary | call.call | index.index | append.append | remove.remove | math.math
      | textual.textual =>
    obtain ⟨rfl, he⟩ := h
    constructor
    exact he

theorem ExprForm.Alike.bare {form form' : ExprForm} (h : form.Alike form') :
    form.bare = form'.bare := by
  cases h <;> simp only [ExprForm.bare, ExprForm.move, moveExprs_eq_map, Expr.move_zero, *]

/-- Where an expression stands is no part of it without places. -/
theorem ExprForm.Alike.bare_at {form form' : ExprForm} (h : form.Alike form') (p p' : Span) :
    (Expr.at p form).bare = (Expr.at p' form').bare := by
  have same : form.move (fun _ => 0) = form'.move (fun _ => 0) := h.bare
  simp [Expr.bare, Span.move, same]

/-- The same form, and parts that differ in nothing but their places. -/
inductive StmtForm.Alike : StmtForm → StmtForm → Prop where
  | declare {s e e' immutable} : e.bare = e'.bare →
    Alike (.declare s e immutable) (.declare s e' immutable)
  | assign {s e e'} : e.bare = e'.bare → Alike (.assign s e) (.assign s e')
  | print {channel e e'} : e.bare = e'.bare → Alike (.print channel e) (.print channel e')
  | branch {e e' ss ss'} {other other' : Option (List Stmt)} : e.bare = e'.bare →
    ss.map Stmt.bare = ss'.map Stmt.bare →
    other.map (List.map Stmt.bare) = other'.map (List.map Stmt.bare) →
    Alike (.branch e ss other) (.branch e' ss' other')
  | loop {s a a' b b' ss ss'} : a.bare = a'.bare → b.bare = b'.bare →
    ss.map Stmt.bare = ss'.map Stmt.bare → Alike (.loop s a b ss) (.loop s a' b' ss')
  | while {e e' ss ss'} : e.bare = e'.bare → ss.map Stmt.bare = ss'.map Stmt.bare →
    Alike (.while e ss) (.while e' ss')
  | function {s params ss ss'} : ss.map Stmt.bare = ss'.map Stmt.bare →
    Alike (.function s params ss) (.function s params ss')
  | return {e e' : Option Expr} : e.map Expr.bare = e'.map Expr.bare →
    Alike (.return e) (.return e')
  | deleteVariable {s} : Alike (.deleteVariable s) (.deleteVariable s)
  | deleteFunction {s} : Alike (.deleteFunction s) (.deleteFunction s)
  | connect {s} : Alike (.connect s) (.connect s)
  | async {ss ss'} : ss.map Stmt.bare = ss'.map Stmt.bare → Alike (.async ss) (.async ss')
  | value {e e'} : e.bare = e'.bare → Alike (.value e) (.value e')

theorem StmtForm.alike_of_bare {form form' : StmtForm} (h : form.bare = form'.bare) :
    form.Alike form' := by
  cases form <;> cases form' <;>
    simp only [bare, move, moveStmts_eq_map, moveOther_eq_map, reduceCtorEq,
      declare.injEq, assign.injEq, print.injEq, branch.injEq, loop.injEq, while.injEq,
      function.injEq, return.injEq, deleteVariable.injEq, deleteFunction.injEq, connect.injEq,
      async.injEq, value.injEq] at h
  case deleteVariable.deleteVariable | deleteFunction.deleteFunction | connect.connect =>
    subst h
    constructor
  case return.return => exact .return h
  case async.async => exact .async h
  case value.value => exact .value h
  case assign.assign | print.print =>
    obtain ⟨rfl, he⟩ := h
    constructor
    exact he
  case declare.declare =>
    obtain ⟨rfl, he, rfl⟩ := h
    exact .declare he
  case branch.branch =>
    obtain ⟨he, hss, hother⟩ := h
    exact .branch he hss hother
  case loop.loop =>
    obtain ⟨rfl, ha, hb, hss⟩ := h
    exact .loop ha hb hss
  case while.while =>
    obtain ⟨he, hss⟩ := h
    exact .while he hss
  case function.function =>
    obtain ⟨rfl, rfl, hss⟩ := h
    exact .function hss

theorem StmtForm.Alike.bare {form form' : StmtForm} (h : form.Alike form') :
    form.bare = form'.bare := by
  cases h <;> simp only [StmtForm.bare, StmtForm.move, moveStmts_eq_map, moveOther_eq_map,
    Expr.move_zero, Stmt.move_zero, *]

theorem StmtForm.Alike.bare_at {form form' : StmtForm} (h : form.Alike form') (p p' : Span) :
    (Stmt.at p form).bare = (Stmt.at p' form').bare := by
  have same : form.move (fun _ => 0) = form'.move (fun _ => 0) := h.bare
  simp [Stmt.bare, Span.move, same]

end BraceScript
