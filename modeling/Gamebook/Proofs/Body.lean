/-
# Gamebook.Proofs.Body — induction over bodies, and the expressions of a story

A body is a list of statements, and a conditional among them holds bodies again. Every proof about all
bodies goes over the same three cases, `Node.body_induction`: no statement, a statement that holds no
body, a conditional.
-/
import Gamebook.Story

namespace Gamebook

namespace Node

/-- Whether a statement holds bodies of its own. -/
def isConditional : Node → Bool
  | conditional .. => true
  | _ => false

/-- Induction over a body and the bodies inside it. -/
theorem body_induction {P : List Node → Prop} (nil : P [])
    (leaf : ∀ n ns, n.isConditional = false → P ns → P (n :: ns))
    (conditional : ∀ guard body otherwise opening closing ns, P body →
      (∀ branch, otherwise = some branch → P branch) → P ns →
      P (.conditional guard body otherwise opening closing :: ns)) : ∀ ns, P ns
  | [] => nil
  | .conditional guard body none opening closing :: ns =>
    conditional guard body none opening closing ns (body_induction nil leaf conditional body)
      (fun _ h => absurd h.symm (Option.some_ne_none _)) (body_induction nil leaf conditional ns)
  | .conditional guard body (some branch) opening closing :: ns =>
    conditional guard body (some branch) opening closing ns
      (body_induction nil leaf conditional body)
      (fun _ h => Option.some.inj h ▸ body_induction nil leaf conditional branch)
      (body_induction nil leaf conditional ns)
  | .text content pos :: ns => leaf _ _ rfl (body_induction nil leaf conditional ns)
  | .choice c :: ns => leaf _ _ rfl (body_induction nil leaf conditional ns)
  | .assignment a :: ns => leaf _ _ rfl (body_induction nil leaf conditional ns)
  | .script code pos :: ns => leaf _ _ rfl (body_induction nil leaf conditional ns)
  | .divert target pos :: ns => leaf _ _ rfl (body_induction nil leaf conditional ns)
  | .stray marker pos :: ns => leaf _ _ rfl (body_induction nil leaf conditional ns)

theorem walk_conditional (guard : Expr) (body : List Node) (otherwise : Option (List Node))
    (opening : Position) (closing : Option Position) :
    (conditional guard body otherwise opening closing).walk
      = conditional guard body otherwise opening closing ::
        (walkAll body ++ (otherwise.map walkAll).getD []) := by
  cases otherwise <;> rw [walk] <;> rfl

theorem walk_leaf {n : Node} (h : n.isConditional = false) : n.walk = [n] := by
  cases n with
  | conditional => cases h
  | _ => rfl

/-- What holds of every statement of a body and of the bodies inside it. -/
def Everywhere (P : Node → Prop) (ns : List Node) : Prop := ∀ n ∈ walkAll ns, P n

instance (P : Node → Prop) [DecidablePred P] (ns : List Node) : Decidable (Everywhere P ns) :=
  inferInstanceAs (Decidable (∀ n ∈ walkAll ns, P n))

section

variable {P : Node → Prop}

theorem everywhere_nil : Everywhere P [] := by simp [Everywhere, walkAll]

theorem everywhere_cons {n : Node} {ns : List Node} :
    Everywhere P (n :: ns) ↔ Everywhere P [n] ∧ Everywhere P ns := by
  simp only [Everywhere, walkAll, List.append_nil, List.forall_mem_append]

theorem everywhere_append {ns ms : List Node} :
    Everywhere P (ns ++ ms) ↔ Everywhere P ns ∧ Everywhere P ms := by
  induction ns with
  | nil => simp [everywhere_nil]
  | cons n ns ih => rw [List.cons_append, everywhere_cons, ih, ← and_assoc, ← everywhere_cons]

theorem everywhere_leaf {n : Node} (h : n.isConditional = false) : Everywhere P [n] ↔ P n := by
  cases n with
  | conditional => cases h
  | _ => simp [Everywhere, walkAll, walk]

theorem everywhere_conditional {guard : Expr} {body : List Node} {otherwise : Option (List Node)}
    {opening : Position} {closing : Option Position} :
    Everywhere P [conditional guard body otherwise opening closing]
      ↔ P (conditional guard body otherwise opening closing) ∧ Everywhere P body ∧
        ∀ branch ∈ otherwise, Everywhere P branch := by
  cases otherwise with
  | none => simp [Everywhere, walkAll, walk]
  | some branch => simp [Everywhere, walkAll, walk, or_imp, forall_and]

end

/-- The expressions that a statement holds itself. -/
def exprs : Node → List Expr
  | choice c => c.guard.toList
  | assignment a => [a.value]
  | conditional guard .. => [guard]
  | _ => []

/-- Whether a statement lacks no marker and is no marker without a conditional. -/
def isWhole : Node → Bool
  | conditional _ _ _ _ closing => closing.isSome
  | stray _ _ => false
  | _ => true

end Node

/-- Every conditional of the passage has its closing marker, and every marker its conditional. -/
def Passage.IsWhole (p : Passage) : Prop := Node.Everywhere (fun n => n.isWhole = true) p.body

instance (p : Passage) : Decidable p.IsWhole := inferInstanceAs (Decidable (Node.Everywhere _ _))

/-- The expressions of a story, however deep the statements that hold them. -/
def Story.exprs (s : Story) : List Expr :=
  s.passages.flatMap fun p => (Node.walkAll p.body).flatMap Node.exprs

theorem Story.mem_exprs {s : Story} {e : Expr} :
    e ∈ s.exprs ↔ ∃ p ∈ s.passages, ∃ n ∈ Node.walkAll p.body, e ∈ n.exprs := by
  simp only [Story.exprs, List.mem_flatMap]

/-- Whether a literal is a decimal. -/
def Literal.isFloat : Literal → Bool
  | .float _ => true
  | _ => false

/-- Whether no decimal is written in an expression. -/
def Expr.isFloatFree : Expr → Bool
  | .literal v => !v.isFloat
  | .var .. => true
  | .unary _ e => e.isFloatFree
  | .binary _ l r => l.isFloatFree && r.isFloatFree

/-- No decimal is written in a statement itself. -/
def Node.FloatFree (n : Node) : Prop := ∀ e ∈ n.exprs, e.isFloatFree = true

/-- No decimal is written in a story. -/
def Story.FloatFree (s : Story) : Prop := ∀ p ∈ s.passages, Node.Everywhere Node.FloatFree p.body

instance : DecidablePred Node.FloatFree :=
  fun n => inferInstanceAs (Decidable (∀ e ∈ n.exprs, e.isFloatFree = true))

instance (s : Story) : Decidable s.FloatFree := inferInstanceAs (Decidable (∀ p ∈ _, _))

end Gamebook
