/-
# Gamebook.Proofs.Folding — what folding and simplifying leave

Folding works from the leaves up, so an operation that it keeps has operands that are folded already and
a result that is not certain: folding again finds the same and keeps it (`Expr.fold_fold`). A simplified
body is recognised by its statements one by one (`Node.Simple`): their expressions are folded, no choice
is guarded by a truth value, and no closed conditional either.

A body may be changed in its expressions alone (`Node.mapExprs`). If each of them folds to what it was,
simplifying brings a simplified body back (`Node.simplifyAll_mapExprsAll`).
-/
import Gamebook.Proofs.Simplify

namespace Gamebook

/-! ## Expressions -/

namespace Expr

/-- A unary operation is carried out on a literal, or kept. -/
inductive UnaryOutcome (op : UnaryOp) (e : Expr) : Prop where
  | computed (a v : Literal) (he : e = literal a) (hv : Literal.unary? op a = some v)
      (hfold : foldUnary op e = literal v)
  | kept (hfold : foldUnary op e = unary op e)

/-- A binary operation is decided by its left operand, carried out on literals, or kept. -/
inductive BinaryOutcome (op : BinaryOp) (l r : Expr) : Prop where
  | decided (b : Bool) (hfold : foldBinary op l r = literal (.bool b))
  | computed (a b v : Literal) (hl : l = literal a) (hr : r = literal b)
      (hv : Literal.binary? op a b = some v) (hfold : foldBinary op l r = literal v)
  | kept (hfold : foldBinary op l r = binary op l r)

theorem foldUnary_cases (op : UnaryOp) (e : Expr) : UnaryOutcome op e := by
  have hfold := foldUnary.eq_def op e
  split at hfold
  · next v hv =>
    obtain ⟨a, ha, hv⟩ := Option.bind_eq_some_iff.mp hv
    cases e with
    | literal a =>
      cases ha
      exact .computed _ v rfl hv hfold
    | _ => cases ha
  · exact .kept hfold

theorem foldBinary_cases (op : BinaryOp) (l r : Expr) : BinaryOutcome op l r := by
  have hfold := foldBinary.eq_def op l r
  split at hfold
  · next b _ => exact .decided b hfold
  · split at hfold
    · split at hfold
      · next v hv => exact .computed _ _ v rfl rfl hv hfold
      · exact .kept hfold
    · exact .kept hfold

/-- **Folding leaves nothing to fold.** -/
theorem fold_fold (e : Expr) : e.fold.fold = e.fold := by
  induction e with
  | literal v => rfl
  | var name pos => rfl
  | unary op e ih =>
    rw [fold]
    cases foldUnary_cases op e.fold with
    | computed _ _ _ _ hfold => rw [hfold, fold]
    | kept hkept => rw [hkept, fold, ih, hkept]
  | binary op l r ihl ihr =>
    rw [fold]
    cases foldBinary_cases op l.fold r.fold with
    | decided _ hfold => rw [hfold, fold]
    | computed _ _ _ _ _ _ hfold => rw [hfold, fold]
    | kept hkept => rw [hkept, fold, ihl, ihr, hkept]

/-- The operand of an operation that folding keeps is folded. -/
theorem fold_operand {op : UnaryOp} {e : Expr} (h : (unary op e).fold = unary op e) : e.fold = e := by
  rw [fold] at h
  cases foldUnary_cases op e.fold with
  | computed _ _ _ _ hfold =>
    rw [hfold] at h
    cases h
  | kept hkept =>
    rw [hkept] at h
    exact (unary.inj h).2

theorem fold_operands {op : BinaryOp} {l r : Expr} (h : (binary op l r).fold = binary op l r) :
    l.fold = l ∧ r.fold = r := by
  rw [fold] at h
  cases foldBinary_cases op l.fold r.fold with
  | decided _ hfold =>
    rw [hfold] at h
    cases h
  | computed _ _ _ _ _ _ hfold =>
    rw [hfold] at h
    cases h
  | kept hkept =>
    rw [hkept] at h
    exact (binary.inj h).2

/-- Whether an expression is a truth value. -/
def isTruth : Expr → Bool
  | literal (.bool _) => true
  | _ => false

theorem exists_of_isTruth {e : Expr} (h : e.isTruth = true) : ∃ b, e = bool b := by
  unfold isTruth at h
  split at h
  · next b => exact ⟨b, rfl⟩
  · cases h

end Expr

/-- A choice stays, with its guard folded, unless the guard becomes a truth value. -/
theorem Choice.simplify?_of_not_isTruth {c : Choice} (h : ∀ g ∈ c.guard, g.fold.isTruth = false) :
    c.simplify? = some { c with guard := c.guard.map Expr.fold } := by
  have hnot : ∀ b, c.guard.map Expr.fold ≠ some (.bool b) := by
    intro b hguard
    obtain ⟨g, hg, hfold⟩ := Option.map_eq_some_iff.mp hguard
    have htruth := h g hg
    rw [hfold] at htruth
    cases htruth
  cases c.simplify?_cases with
  | free hguard _ => exact absurd hguard (hnot true)
  | gone hguard _ => exact absurd hguard (hnot false)
  | kept hkept => exact hkept

/-! ## Simplified bodies -/

namespace Node

/-- A conditional is kept if its guard is no truth value. One that is not closed is kept in any case. -/
theorem select_of_not_isTruth {guard : Expr} {closing : Option Position}
    (h : closing.isSome = true → guard.isTruth = false) (body : List Node)
    (otherwise : Option (List Node)) (opening : Position) :
    select guard body otherwise opening closing = [conditional guard body otherwise opening closing] := by
  unfold select
  split
  · cases h rfl
  · cases h rfl
  · rfl

/-- A statement that simplifying leaves as it is, if it leaves the bodies in it. -/
def Simple : Node → Prop
  | choice c => ∀ g ∈ c.guard, g.fold = g ∧ g.isTruth = false
  | assignment a => a.value.fold = a.value
  | conditional guard _ _ _ closing => guard.fold = guard ∧ (closing.isSome = true → guard.isTruth = false)
  | _ => True

theorem Simple.exprs_folded {n : Node} (h : n.Simple) : ∀ e ∈ n.exprs, e.fold = e := by
  intro e he
  cases n with
  | choice c => exact (h e (Option.mem_toList.mp he)).1
  | assignment a => exact List.mem_singleton.mp he ▸ h
  | conditional guard body otherwise opening closing => exact List.mem_singleton.mp he ▸ h.1
  | _ => cases he

theorem simple_simplify_choice (c : Choice) : Everywhere Simple (choice c).simplify := by
  have hunguarded : Everywhere Simple [choice { c with guard := none }] :=
    (everywhere_leaf rfl).mpr fun g hg => absurd hg (Option.not_mem_none g)
  by_cases htruth : ∀ g ∈ c.guard, g.fold.isTruth = false
  · rw [simplify, Choice.simplify?_of_not_isTruth htruth]
    refine (everywhere_leaf rfl).mpr fun g hg => ?_
    obtain ⟨e, he, rfl⟩ := Option.map_eq_some_iff.mp hg
    exact ⟨e.fold_fold, htruth e he⟩
  · -- A truth value is taken out: with the choice, or with the guard alone.
    obtain ⟨g, hnot⟩ := Classical.not_forall.mp htruth
    obtain ⟨hg, htruth⟩ := Classical.not_imp.mp hnot
    obtain ⟨b, hb⟩ := Expr.exists_of_isTruth (eq_true_of_ne_false htruth)
    have hguard : c.guard.map Expr.fold = some (.bool b) := by rw [hg, Option.map_some, hb]
    rw [simplify, Choice.simplify?, hguard]
    cases b with
    | true => exact hunguarded
    | false => exact everywhere_nil

/-- **A simplified body holds only simple statements.** -/
theorem everywhere_simple_simplifyAll (ns : List Node) : Everywhere Simple (simplifyAll ns) := by
  refine everywhere_simplifyAll (P := fun _ => True) (fun n hn _ => ?_) ?_ fun _ _ => trivial
  · cases n with
    | conditional => cases hn
    | choice c => exact simple_simplify_choice c
    | assignment a => exact (everywhere_leaf rfl).mpr a.value.fold_fold
    | _ => exact (everywhere_leaf rfl).mpr trivial
  · intro guard body otherwise opening closing body' otherwise' _ hselected
    refine ⟨guard.fold_fold, fun hclosed => ?_⟩
    obtain ⟨pos, rfl⟩ := Option.isSome_iff_exists.mp hclosed
    unfold Expr.isTruth
    split
    · next b hguard =>
      rw [hguard] at hselected
      cases hselected
    · rfl

end Node

/-! ## Changing expressions -/

mutual

/-- A statement with each expression in it replaced. -/
def Node.mapExprs (g : Expr → Expr) : Node → Node
  | .choice c => .choice { c with guard := c.guard.map g }
  | .assignment a => .assignment { a with value := g a.value }
  | .conditional guard body otherwise opening closing =>
    .conditional (g guard) (Node.mapExprsAll g body)
      (match otherwise with
        | none => none
        | some branch => some (Node.mapExprsAll g branch))
      opening closing
  | .text content pos => .text content pos
  | .script code pos => .script code pos
  | .divert target pos => .divert target pos
  | .stray marker pos => .stray marker pos

/-- A body with each expression in it replaced. -/
def Node.mapExprsAll (g : Expr → Expr) : List Node → List Node
  | [] => []
  | n :: ns => n.mapExprs g :: Node.mapExprsAll g ns

end

namespace Node

variable {g : Expr → Expr}

theorem mapExprs_conditional (guard : Expr) (body : List Node) (otherwise : Option (List Node))
    (opening : Position) (closing : Option Position) :
    (conditional guard body otherwise opening closing).mapExprs g
      = conditional (g guard) (mapExprsAll g body) (otherwise.map (mapExprsAll g)) opening closing := by
  cases otherwise <;> rw [mapExprs] <;> rfl

theorem isConditional_mapExprs (n : Node) : (n.mapExprs g).isConditional = n.isConditional := by
  cases n <;> rfl

/-- What holds everywhere after the change: the property of the changed statement has to be known of a
statement, whatever becomes of its bodies. -/
theorem everywhere_mapExprsAll {P P' : Node → Prop}
    (hleaf : ∀ n, n.isConditional = false → P n → P' (n.mapExprs g))
    (hconditional : ∀ guard body otherwise opening closing body' otherwise',
      P (conditional guard body otherwise opening closing) →
        P' (conditional (g guard) body' otherwise' opening closing))
    {ns : List Node} (h : Everywhere P ns) : Everywhere P' (mapExprsAll g ns) := by
  induction ns using body_induction with
  | nil => exact everywhere_nil
  | leaf n ns hn ih =>
    obtain ⟨hhead, htail⟩ := everywhere_cons.mp h
    rw [mapExprsAll, everywhere_cons, everywhere_leaf (by rw [isConditional_mapExprs, hn])]
    exact ⟨hleaf n hn ((everywhere_leaf hn).mp hhead), ih htail⟩
  | conditional guard body otherwise opening closing ns ihBody ihBranch ih =>
    obtain ⟨hhead, htail⟩ := everywhere_cons.mp h
    obtain ⟨hnode, hbody, hbranch⟩ := everywhere_conditional.mp hhead
    rw [mapExprsAll, everywhere_cons, mapExprs_conditional, everywhere_conditional]
    refine ⟨⟨hconditional _ _ _ _ _ _ _ hnode, ihBody hbody, fun branch hmem => ?_⟩, ih htail⟩
    obtain ⟨branch', hmem', rfl⟩ := Option.map_eq_some_iff.mp hmem
    exact ihBranch branch' hmem' (hbranch branch' hmem')

/-- An expression that is replaced by one that folds to it. -/
def FoldsBack (g : Expr → Expr) (n : Node) : Prop := ∀ e ∈ n.exprs, (g e).fold = e

theorem simplify_mapExprs_leaf {n : Node} (hn : n.isConditional = false) (hsimple : n.Simple)
    (hback : n.FoldsBack g) : (n.mapExprs g).simplify = [n] := by
  cases n with
  | conditional => cases hn
  | choice c =>
    obtain ⟨text, guard, target, pos⟩ := c
    have hfold : ∀ e ∈ guard, (g e).fold = e := fun e he => hback e (Option.mem_toList.mpr he)
    have hguard : (guard.map g).map Expr.fold = guard := by
      cases guard with
      | none => rfl
      | some e => exact congrArg some (hfold e rfl)
    rw [mapExprs, simplify, Choice.simplify?_of_not_isTruth, hguard]
    intro e he
    obtain ⟨e', he', rfl⟩ := Option.map_eq_some_iff.mp he
    rw [hfold e' he']
    exact (hsimple e' he').2
  | assignment a =>
    have hfold : (g a.value).fold = a.value := hback a.value (List.mem_singleton_self _)
    rw [mapExprs, simplify, hfold]
  | _ => rfl

/-- **Simplifying undoes what folding undoes.** -/
theorem simplifyAll_mapExprsAll {ns : List Node} (hsimple : Everywhere Simple ns)
    (hback : Everywhere (FoldsBack g) ns) : simplifyAll (mapExprsAll g ns) = ns := by
  induction ns using body_induction with
  | nil => rfl
  | leaf n ns hn ih =>
    obtain ⟨hhead, htail⟩ := everywhere_cons.mp hsimple
    obtain ⟨hhead', htail'⟩ := everywhere_cons.mp hback
    rw [everywhere_leaf hn] at hhead hhead'
    rw [mapExprsAll, simplifyAll, simplify_mapExprs_leaf hn hhead hhead', ih htail htail']
    rfl
  | conditional guard body otherwise opening closing ns ihBody ihBranch ih =>
    obtain ⟨hhead, htail⟩ := everywhere_cons.mp hsimple
    obtain ⟨hhead', htail'⟩ := everywhere_cons.mp hback
    obtain ⟨⟨-, htruth⟩, hbody, hbranch⟩ := everywhere_conditional.mp hhead
    obtain ⟨hfold, hbody', hbranch'⟩ := everywhere_conditional.mp hhead'
    have hguard : (g guard).fold = guard := hfold guard (List.mem_singleton_self _)
    have hother : (otherwise.map (mapExprsAll g)).map simplifyAll = otherwise := by
      cases otherwise with
      | none => rfl
      | some branch => exact congrArg some (ihBranch branch rfl (hbranch branch rfl) (hbranch' branch rfl))
    rw [mapExprsAll, simplifyAll, mapExprs_conditional, simplify_conditional, hguard,
      ihBody hbody hbody', hother, select_of_not_isTruth htruth, ih htail htail']
    rfl

end Node

end Gamebook
