/-
# Gamebook.Proofs.FixedPoint — simplifying once is enough

What is left to simplify in a story can be seen without simplifying it: an operation on literals whose
result is certain (`Expr.Folded` says that there is none), a choice with a truth value for its guard, a
closed conditional with one (`Node.Settled` says that a statement is neither). A story is left as it is
exactly if it holds none of these, at any depth, and a simplified story holds none, so simplifying it again
changes nothing (`Story.simplify_simplify`).

Conditionals without a closing marker are settled whatever truth value they are guarded by, and so are
operations that overflow, divisions and operations on literals of different kinds: they are kept, and kept
again.
-/
import Gamebook.Proofs.Folding

namespace Gamebook

/-! ## Expressions -/

namespace Expr

/-- No operation of the expression has a certain result. -/
def Folded : Expr → Prop
  | literal _ | var _ _ => True
  | unary op e => e.Folded ∧ ∀ a ∈ e.literal?, Literal.unary? op a = none
  | binary op l r =>
    l.Folded ∧ r.Folded ∧ decided? op l = none ∧
      ∀ a ∈ l.literal?, ∀ b ∈ r.literal?, Literal.binary? op a b = none

theorem mem_literal? {e : Expr} {a : Literal} : a ∈ e.literal? ↔ e = literal a := by
  cases e <;> simp [literal?]

/-- A unary operation is kept exactly if its result is not certain. -/
theorem foldUnary_eq_iff {op : UnaryOp} {e : Expr} :
    foldUnary op e = unary op e ↔ ∀ a ∈ e.literal?, Literal.unary? op a = none := by
  unfold foldUnary
  split
  · next v hv =>
    obtain ⟨a, ha, hv⟩ := Option.bind_eq_some_iff.mp hv
    refine ⟨Expr.noConfusion, fun hnone => ?_⟩
    rw [hnone a ha] at hv
    cases hv
  · next hnone => exact ⟨fun _ => Option.bind_eq_none_iff.mp hnone, fun _ => rfl⟩

/-- A binary operation is kept exactly if its left operand does not decide it and its result is not
certain. -/
theorem foldBinary_eq_iff {op : BinaryOp} {l r : Expr} :
    foldBinary op l r = binary op l r ↔
      decided? op l = none ∧ ∀ a ∈ l.literal?, ∀ b ∈ r.literal?, Literal.binary? op a b = none := by
  unfold foldBinary
  split
  · next b hb => simp [hb]
  · next hdecided =>
    simp only [hdecided, true_and]
    split
    · next a b =>
      split
      · next v hv => simp [literal?, hv]
      · next hnone => simp [literal?, hnone]
    · next hnot =>
      refine ⟨fun _ a ha b hb => ?_, fun _ => rfl⟩
      exact (hnot a b (mem_literal?.mp ha) (mem_literal?.mp hb)).elim

/-- **Folding leaves an expression as it is exactly if no operation of it has a certain result.** -/
theorem fold_eq_self_iff {e : Expr} : e.fold = e ↔ e.Folded := by
  induction e with
  | literal v => exact iff_of_true rfl trivial
  | var name pos => exact iff_of_true rfl trivial
  | unary op e ih =>
    constructor
    · intro h
      have he := fold_operand h
      rw [fold, he] at h
      exact ⟨ih.mp he, foldUnary_eq_iff.mp h⟩
    · rintro ⟨he, hnone⟩
      rw [fold, ih.mpr he]
      exact foldUnary_eq_iff.mpr hnone
  | binary op l r ihl ihr =>
    constructor
    · intro h
      obtain ⟨hl, hr⟩ := fold_operands h
      rw [fold, hl, hr] at h
      exact ⟨ihl.mp hl, ihr.mp hr, foldBinary_eq_iff.mp h⟩
    · rintro ⟨hl, hr, hkept⟩
      rw [fold, ihl.mpr hl, ihr.mpr hr]
      exact foldBinary_eq_iff.mpr hkept

end Expr

/-! ## Bodies -/

namespace Node

/-- There is nothing to simplify in a statement itself, the bodies in it left out. -/
def Settled : Node → Prop
  | choice c => ∀ g ∈ c.guard, g.Folded ∧ g.isTruth = false
  | assignment a => a.value.Folded
  | conditional guard _ _ _ closing => guard.Folded ∧ (closing.isSome = true → guard.isTruth = false)
  | _ => True

theorem settled_iff_simple {n : Node} : n.Settled ↔ n.Simple := by
  cases n <;> simp only [Settled, Simple, Expr.fold_eq_self_iff]

theorem mapExprsAll_id (ns : List Node) : mapExprsAll id ns = ns := by
  induction ns using body_induction with
  | nil => rfl
  | leaf n ns hn ih =>
    rw [mapExprsAll, ih]
    cases n with
    | conditional => cases hn
    | choice c => simp [mapExprs]
    | _ => rfl
  | conditional guard body otherwise opening closing ns ihBody ihBranch ih =>
    rw [mapExprsAll, mapExprs_conditional, ihBody, ih]
    cases otherwise with
    | none => rfl
    | some branch => rw [Option.map_some, ihBranch branch rfl]; rfl

/-- **Simplifying leaves a body as it is exactly if all its statements are simple.** -/
theorem simplifyAll_eq_self_iff {ns : List Node} : simplifyAll ns = ns ↔ Everywhere Simple ns := by
  constructor
  · intro h
    rw [← h]
    exact everywhere_simple_simplifyAll ns
  · intro h
    have hback : Everywhere (FoldsBack id) ns := fun n hn e he => (h n hn).exprs_folded e he
    have hsimplified := simplifyAll_mapExprsAll h hback
    rwa [mapExprsAll_id] at hsimplified

end Node

/-! ## Stories -/

theorem Passage.simplify_eq_self_iff {p : Passage} : p.simplify = p ↔ Node.Everywhere Node.Simple p.body := by
  rw [← Node.simplifyAll_eq_self_iff, Passage.simplify]
  cases p
  simp

theorem Story.simplify_eq_self_iff {s : Story} : s.simplify = s ↔ ∀ p ∈ s.passages, p.simplify = p := by
  have hpassages : s.simplify = s ↔ s.passages.map Passage.simplify = s.passages.map id := by
    cases s
    simp [Story.simplify]
  exact hpassages.trans List.map_inj_left

/-- **Simplifying reaches its end in one pass.** Simplifying a simplified story changes nothing, and the
stories that simplifying does not change are those in which nothing is left to simplify, at any depth. -/
theorem Story.simplify_simplify (s : Story) :
    s.simplify.simplify = s.simplify ∧
      (s.simplify = s ↔ ∀ p ∈ s.passages, Node.Everywhere Node.Settled p.body) := by
  refine ⟨Story.simplify_eq_self_iff.mpr fun p hp => ?_, Story.simplify_eq_self_iff.trans ?_⟩
  · obtain ⟨q, -, rfl⟩ := List.mem_map.mp hp
    exact Passage.simplify_eq_self_iff.mpr (Node.everywhere_simple_simplifyAll q.body)
  · simp only [Passage.simplify_eq_self_iff, Node.Everywhere, Node.settled_iff_simple]

end Gamebook
