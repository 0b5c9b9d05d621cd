-- Where a `return` can stand: in the body of a function and nowhere else,
-- whatever other blocks are around it.
import BraceScript.Proofs.Grammar.Parse
import BraceScript.Proofs.Nodes

namespace BraceScript

open Grammar

/-! ## Outside of the bodies of functions -/

/-- The nodes right below a node, unless they are the body of a function. -/
def Node.ownParts : Node → List Node
  | .stmt (.at _ (.function _ _ _)) => []
  | n => n.parts

/-- A node is another one, or stands below it and is not in the body of a function there. -/
inductive Node.Outside : Node → Node → Prop where
  | self {p} : Outside p p
  | under {p q r} : Outside p q → q ∈ r.ownParts → Outside p r

def Node.isReturn : Node → Bool
  | .stmt (.at _ (.return _)) => true
  | _ => false

/-- Every `return` in the node is in the body of a function there. -/
def Node.Returnless (q : Node) : Prop := ∀ p : Node, p.Outside q → p.isReturn = false

theorem Node.Outside.trans {p q r : Node} (h : p.Outside q) (h' : q.Outside r) : p.Outside r := by
  induction h' with
  | self => exact h
  | under _ part ih => exact .under ih part

theorem Node.Returnless.of_outside {p q : Node} (h : q.Returnless) (hp : p.Outside q) :
    p.Returnless := fun _ h' => h _ (h'.trans hp)

theorem Node.returnless_iff {q : Node} :
    q.Returnless ↔ q.isReturn = false ∧ ∀ p ∈ q.ownParts, p.Returnless := by
  constructor
  · exact fun h => ⟨h q .self, fun p part => h.of_outside (.under .self part)⟩
  · rintro ⟨own, parts⟩ p h
    cases h with
    | self => exact own
    | under h part => exact parts _ part _ h

theorem ExprForm.exists_of_mem_parts {form : ExprForm} {n : Node} (h : n ∈ form.parts) :
    ∃ e, n = .expr e := by
  cases form <;> simp only [ExprForm.parts, List.mem_map, List.mem_cons, List.not_mem_nil,
    or_false] at h <;> grind

theorem Node.returnless_expr (e : Expr) : (Node.expr e).Returnless := by
  suffices below : ∀ p q : Node, p.Outside q → ∀ e, q = .expr e → p.isReturn = false from
    fun p h => below p _ h e rfl
  intro p q h
  induction h with
  | self => rintro e rfl; rfl
  | under _ part ih =>
    rintro e rfl
    obtain ⟨e', rfl⟩ := ExprForm.exists_of_mem_parts part
    exact ih e' rfl

/-! ## Programs -/

/-- Every `return` in the sentence is in the body of a function there, wherever it stands. -/
def Grammar.Sentence.Returnless : Sentence → Prop
  | .form f => ∀ span, (Node.stmt (.at span f)).Returnless
  | .stmt s => (Node.stmt s).Returnless
  | .stmts ss | .block ss => ∀ s ∈ ss, (Node.stmt s).Returnless

theorem Grammar.DerivesStmt.returnless {longest inFunction : Bool} {next : Option Token.Kind}
    {ts : List Token} {sentence : Sentence} (h : DerivesStmt longest inFunction next ts sentence)
    (outside : inFunction = false) : sentence.Returnless := by
  induction h with
  | returnNothing | returnValue => cases outside
  | declare | print | call | index | assign | valueForm =>
    refine fun _ => Node.returnless_iff.2 ⟨rfl, ?_⟩
    simpa [Node.ownParts, Node.parts, Stmt.form, StmtForm.parts] using Node.returnless_expr _
  | function | deleteVariable | deleteFunction | connect =>
    exact fun _ => Node.returnless_iff.2 ⟨rfl, fun p part => by cases part⟩
  | branch _ _ ih =>
    refine fun _ => Node.returnless_iff.2 ⟨rfl, ?_⟩
    simpa [Node.ownParts, Node.parts, Stmt.form, StmtForm.parts, Sentence.Returnless,
      Node.returnless_expr] using ih outside
  | branchElse _ _ _ ih ih' =>
    refine fun _ => Node.returnless_iff.2 ⟨rfl, ?_⟩
    simpa [Node.ownParts, Node.parts, Stmt.form, StmtForm.parts, Node.returnless_expr, or_imp,
      forall_and] using ⟨ih outside, ih' outside⟩
  | loop _ _ _ ih | «while» _ _ ih | async _ ih =>
    refine fun _ => Node.returnless_iff.2 ⟨rfl, ?_⟩
    simpa [Node.ownParts, Node.parts, Stmt.form, StmtForm.parts, Sentence.Returnless,
      Node.returnless_expr] using ih outside
  | stmt _ ih => exact ih outside _
  | nil => exact fun s hs => by cases hs
  | cons _ _ ihs ihss => exact List.forall_mem_cons.2 ⟨ihs outside, ihss outside⟩
  | block _ ih => exact ih outside

theorem returnless_of_parse {source : String} {ss : List Stmt} (h : parse source = .ok ss) :
    ∀ s ∈ ss, (Node.stmt s).Returnless := by
  obtain ⟨ts, -, program⟩ := (parse_eq_ok_iff source ss).1 h
  exact program.returnless rfl

end BraceScript
