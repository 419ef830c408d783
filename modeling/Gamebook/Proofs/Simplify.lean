/-
# Gamebook.Proofs.Simplify — simplifying a story keeps what its passages do

Whatever host runs the story: an expression and its folded form have the same value, or are refused
together, on every store; so a branch is dropped only where it would never run. The one thing folding
takes for granted is decimal arithmetic, which the language leaves to the host, so the statements are
about stories in which no decimal is written.
-/
import Gamebook.Story.Build
import Gamebook.Story.Simplify
import Gamebook.Proofs.Body
import Gamebook.Proofs.Run

namespace Gamebook

variable {Foreign : Type}

/-! ## Literals -/

namespace Literal

/-- An exact integer result in the range of literals is the wrapped one. -/
theorem ofInt?_eq_some {n : Int} {v : Literal} (h : ofInt? n = some v) :
    v = int (Int64.ofInt n) := by
  rw [ofInt?, Option.ite_none_right_eq_some] at h
  exact (Option.some.inj h.2).symm

/-- What folding makes of integers by arithmetic is what wrapping around makes of them. -/
theorem arith?_eq_some {op : BinaryOp} {a b v : Literal} (h : arith? op a b = some v)
    (ha : a.isFloat = false) (hb : b.isFloat = false) :
    ∃ m n k, a = int m ∧ b = int n ∧ v = int k ∧ op.onIntegers? m n = some k := by
  cases a with
  | float x => cases ha
  | str s => cases h
  | bool c => cases h
  | int m =>
    cases b with
    | float x => cases hb
    | str s => cases h
    | bool c => cases h
    | int n =>
      obtain ⟨k, hk, hv⟩ := Option.bind_eq_some_iff.mp h
      refine ⟨m, n, Int64.ofInt k, rfl, rfl, ofInt?_eq_some hv, ?_⟩
      cases op with
      | add =>
        rw [← Option.some.inj hk, Int64.ofInt_add, Int64.ofInt_toInt, Int64.ofInt_toInt]
        rfl
      | sub =>
        rw [← Option.some.inj hk, Int64.ofInt_sub, Int64.ofInt_toInt, Int64.ofInt_toInt]
        rfl
      | mul =>
        rw [← Option.some.inj hk, Int64.ofInt_mul, Int64.ofInt_toInt, Int64.ofInt_toInt]
        rfl
      | _ => cases hk

theorem apply_of_arith? (host : Host Foreign) {op : BinaryOp} {a b v : Literal}
    (h : arith? op a b = some v) (ha : a.isFloat = false) (hb : b.isFloat = false) :
    op.apply host a.toValue b.toValue = some v.toValue := by
  obtain ⟨m, n, k, rfl, rfl, rfl, hk⟩ := arith?_eq_some h ha hb
  simp [BinaryOp.apply, BinaryOp.fixed?, toValue, hk]

theorem apply_of_equal? (host : Host Foreign) {a b : Literal} {e : Bool} (h : equal? a b = some e) :
    BinaryOp.apply host .eq a.toValue b.toValue = some (.bool e) ∧
      BinaryOp.apply host .ne a.toValue b.toValue = some (.bool !e) := by
  cases a <;> cases b <;> cases h <;> exact ⟨rfl, rfl⟩

theorem apply_of_before? (host : Host Foreign) {a b : Literal} {l : Bool} (h : before? a b = some l) :
    BinaryOp.apply host .lt a.toValue b.toValue = some (.bool l) ∧
      BinaryOp.apply host .ge a.toValue b.toValue = some (.bool !l) ∧
      BinaryOp.apply host .gt b.toValue a.toValue = some (.bool l) ∧
      BinaryOp.apply host .le b.toValue a.toValue = some (.bool !l) := by
  cases a with
  | int m =>
    cases b with
    | int n =>
      cases h
      -- Comparisons are folded from `<` alone; at run time `≤` is its negation, sides exchanged.
      have hge : decide (n ≤ m) = !decide (m < n) := by simp [← Int64.not_lt]
      rw [← hge]
      exact ⟨rfl, rfl, rfl, rfl⟩
    | _ => cases h
  | str s =>
    cases b with
    | str t =>
      cases h
      have hge : decide (t ≤ s) = !decide (s < t) := by simp [← String.not_lt]
      rw [← hge]
      exact ⟨rfl, rfl, rfl, rfl⟩
    | _ => cases h
  | _ => cases h

/-- A unary operation that is folded yields what it yields at run time. -/
theorem apply_of_unary? (host : Host Foreign) {op : UnaryOp} {a v : Literal}
    (h : unary? op a = some v) (ha : a.isFloat = false) :
    op.apply host a.toValue = some v.toValue ∧ v.isFloat = false := by
  cases op with
  | not =>
    cases a with
    | bool b => cases h; exact ⟨rfl, rfl⟩
    | _ => cases h
  | neg =>
    cases a with
    | int n =>
      rw [unary?, Option.ite_none_left_eq_some] at h
      cases h.2
      exact ⟨rfl, rfl⟩
    | float x => cases ha
    | _ => cases h

/-- A binary operation that is folded yields what it yields at run time. -/
theorem eval_of_binary? (host : Host Foreign) (σ : Store Foreign) {op : BinaryOp} {a b v : Literal}
    (h : binary? op a b = some v) (ha : a.isFloat = false) (hb : b.isFloat = false) :
    (Expr.binary op (.literal a) (.literal b)).eval host σ = some v.toValue ∧ v.isFloat = false := by
  have harith : ∀ op, arith? op a b = some v → op.apply host a.toValue b.toValue = some v.toValue ∧
      v.isFloat = false := by
    intro op hv
    refine ⟨apply_of_arith? host hv ha hb, ?_⟩
    obtain ⟨m, n, k, -, -, rfl, -⟩ := arith?_eq_some hv ha hb
    rfl
  cases op with
  | add => exact harith .add h
  | sub => exact harith .sub h
  | mul => exact harith .mul h
  | div => cases h
  | mod => cases h
  | eq =>
    obtain ⟨e, he, rfl⟩ := Option.map_eq_some_iff.mp h
    exact ⟨(apply_of_equal? host he).1, rfl⟩
  | ne =>
    obtain ⟨e, he, rfl⟩ := Option.map_eq_some_iff.mp h
    exact ⟨(apply_of_equal? host he).2, rfl⟩
  | lt =>
    obtain ⟨l, hl, rfl⟩ := Option.map_eq_some_iff.mp h
    exact ⟨(apply_of_before? host hl).1, rfl⟩
  | ge =>
    obtain ⟨l, hl, rfl⟩ := Option.map_eq_some_iff.mp h
    exact ⟨(apply_of_before? host hl).2.1, rfl⟩
  | gt =>
    obtain ⟨l, hl, rfl⟩ := Option.map_eq_some_iff.mp h
    exact ⟨(apply_of_before? host hl).2.2.1, rfl⟩
  | le =>
    obtain ⟨l, hl, rfl⟩ := Option.map_eq_some_iff.mp h
    exact ⟨(apply_of_before? host hl).2.2.2, rfl⟩
  | and =>
    obtain ⟨c, hc, rfl⟩ := Option.map_eq_some_iff.mp h
    cases a <;> cases b <;> cases hc
    next p q => cases p <;> exact ⟨rfl, rfl⟩
  | or =>
    obtain ⟨c, hc, rfl⟩ := Option.map_eq_some_iff.mp h
    cases a <;> cases b <;> cases hc
    next p q => cases p <;> exact ⟨rfl, rfl⟩

end Literal

/-! ## Expressions -/

namespace Expr

/-- A binary operation depends on its operands through their values. -/
theorem eval_binary_congr (host : Host Foreign) (σ : Store Foreign) (op : BinaryOp) {l l' r r' : Expr}
    (hl : l.eval host σ = l'.eval host σ) (hr : r.eval host σ = r'.eval host σ) :
    (binary op l r).eval host σ = (binary op l' r').eval host σ := by
  cases op <;> simp only [eval, hl, hr]

/-- An operation that its left operand decides yields that decision. -/
theorem eval_of_decided? (host : Host Foreign) (σ : Store Foreign) {op : BinaryOp} {l : Expr} {b : Bool}
    (h : decided? op l = some b) (r : Expr) : (binary op l r).eval host σ = some (.bool b) := by
  unfold decided? at h
  split at h
  · cases h; rfl
  · cases h; rfl
  · cases h

theorem foldUnary_sound (host : Host Foreign) (σ : Store Foreign) (op : UnaryOp) {e : Expr}
    (he : e.isFloatFree = true) :
    (foldUnary op e).eval host σ = (unary op e).eval host σ ∧ (foldUnary op e).isFloatFree = true := by
  rw [foldUnary]
  split
  · next v hv =>
    obtain ⟨a, ha, hv⟩ := Option.bind_eq_some_iff.mp hv
    cases e with
    | literal w =>
      cases ha
      obtain ⟨happly, hfloat⟩ := Literal.apply_of_unary? host hv (by simpa [isFloatFree] using he)
      exact ⟨happly.symm, by simp [isFloatFree, hfloat]⟩
    | _ => cases ha
  · exact ⟨rfl, he⟩

theorem foldBinary_sound (host : Host Foreign) (σ : Store Foreign) (op : BinaryOp) {l r : Expr}
    (hl : l.isFloatFree = true) (hr : r.isFloatFree = true) :
    (foldBinary op l r).eval host σ = (binary op l r).eval host σ ∧
      (foldBinary op l r).isFloatFree = true := by
  have hkeep : (binary op l r).isFloatFree = true := by simp [isFloatFree, hl, hr]
  unfold foldBinary
  split
  · next b hb => exact ⟨(eval_of_decided? host σ hb r).symm, rfl⟩
  · split
    · next a b =>
      split
      · next v hv =>
        obtain ⟨heval, hfloat⟩ := Literal.eval_of_binary? host σ hv (by simpa [isFloatFree] using hl)
          (by simpa [isFloatFree] using hr)
        exact ⟨heval.symm, by simp [isFloatFree, hfloat]⟩
      · exact ⟨rfl, hkeep⟩
    · exact ⟨rfl, hkeep⟩

/-- **Folding keeps the value** on every store, and makes no decimals. -/
theorem fold_sound (host : Host Foreign) (σ : Store Foreign) {e : Expr} (he : e.isFloatFree = true) :
    e.fold.eval host σ = e.eval host σ ∧ e.fold.isFloatFree = true := by
  induction e with
  | literal v => exact ⟨rfl, he⟩
  | var name pos => exact ⟨rfl, rfl⟩
  | unary op e ih =>
    obtain ⟨heval, hfree⟩ := ih he
    have hfold := foldUnary_sound host σ op hfree
    refine ⟨hfold.1.trans ?_, hfold.2⟩
    simp only [eval, heval]
  | binary op l r ihl ihr =>
    rw [isFloatFree, Bool.and_eq_true] at he
    obtain ⟨hl, hlfree⟩ := ihl he.1
    obtain ⟨hr, hrfree⟩ := ihr he.2
    have hfold := foldBinary_sound host σ op hlfree hrfree
    exact ⟨hfold.1.trans (eval_binary_congr host σ op hl hr), hfold.2⟩

theorem eval_fold (host : Host Foreign) (σ : Store Foreign) {e : Expr} (he : e.isFloatFree = true) :
    e.fold.eval host σ = e.eval host σ := (fold_sound host σ he).1

end Expr

/-! ## Statements -/

/-- What can become of a choice: it loses a guard that always holds, goes with one that never does, or keeps
its guard folded. -/
inductive Choice.Outcome (c : Choice) : Prop where
  | free (hguard : c.guard.map Expr.fold = some (.bool true))
      (hsimplify : c.simplify? = some { c with guard := none })
  | gone (hguard : c.guard.map Expr.fold = some (.bool false)) (hsimplify : c.simplify? = none)
  | kept (hsimplify : c.simplify? = some { c with guard := c.guard.map Expr.fold })

theorem Choice.simplify?_cases (c : Choice) : c.Outcome := by
  have hsimplify := Choice.simplify?.eq_def c
  split at hsimplify
  · next hguard => exact .free hguard hsimplify
  · next hguard => exact .gone hguard hsimplify
  · exact .kept hsimplify

/-- Folding the guard of a choice keeps what the choice does. -/
theorem Choice.run_fold (host : Host Foreign) (σ : Store Foreign) {c : Choice}
    (hc : ∀ e ∈ c.guard, e.isFloatFree = true) :
    Choice.run host { c with guard := c.guard.map Expr.fold } σ = c.run host σ := by
  obtain ⟨text, guard, target, pos⟩ := c
  cases guard with
  | none => rfl
  | some guard => simp only [Choice.run, Option.map_some, Expr.eval_fold host σ (hc guard rfl)]

/-- A choice that can still be offered does the same; one that goes would never be offered. -/
theorem Node.runAll_simplify_choice (host : Host Foreign) (σ : Store Foreign) {c : Choice}
    (hc : ∀ e ∈ c.guard, e.isFloatFree = true) :
    Node.runAll host (Node.choice c).simplify σ = c.run host σ := by
  rw [← Choice.run_fold host σ hc, Node.simplify]
  cases c.simplify?_cases with
  | free hguard hc =>
    rw [hc, hguard]
    exact Node.runAll_singleton host _ σ
  | gone hguard hc =>
    rw [hc, hguard]
    exact Node.runAll_nil host σ
  | kept hc =>
    rw [hc]
    exact Node.runAll_singleton host _ σ

theorem Assignment.run_fold (host : Host Foreign) (σ : Store Foreign) {a : Assignment}
    (ha : a.value.isFloatFree = true) :
    Assignment.run host { a with value := a.value.fold } σ = a.run host σ := by
  simp only [Assignment.run, Assignment.eval, Expr.eval_fold host σ ha]

namespace Node

/-- Selecting the branch of a conditional leads to what the conditional leads to. -/
theorem runAll_select (host : Host Foreign) (σ : Store Foreign) (guard : Expr) (body : List Node)
    (otherwise : Option (List Node)) (opening : Position) (closing : Option Position) :
    runAll host (select guard body otherwise opening closing) σ
      = (conditional guard body otherwise opening closing).run host σ := by
  rw [run_conditional]
  unfold select
  split
  · rfl
  · rfl
  · rw [runAll_singleton, run_conditional]

theorem simplify_conditional (guard : Expr) (body : List Node) (otherwise : Option (List Node))
    (opening : Position) (closing : Option Position) :
    (conditional guard body otherwise opening closing).simplify
      = select guard.fold (simplifyAll body) (otherwise.map simplifyAll) opening closing := by
  cases otherwise <;> rw [simplify] <;> rfl

/-- A choice goes, loses its guard or keeps it folded. -/
theorem everywhere_simplify_choice {P : Node → Prop} {c : Choice}
    (hfree : P (choice { c with guard := none }))
    (hfolded : P (choice { c with guard := c.guard.map Expr.fold })) : Everywhere P (choice c).simplify := by
  rw [simplify]
  cases c.simplify?_cases with
  | free _ hc =>
    rw [hc]
    exact (everywhere_leaf rfl).mpr hfree
  | gone _ hc =>
    rw [hc]
    exact everywhere_nil
  | kept hc =>
    rw [hc]
    exact (everywhere_leaf rfl).mpr hfolded

/-- What holds everywhere in a simplified body: a statement without bodies gives statements with the
property, and so does a conditional that is kept, whatever becomes of its branches. -/
theorem everywhere_simplifyAll {P P' : Node → Prop}
    (hleaf : ∀ n, n.isConditional = false → P n → Everywhere P' n.simplify)
    (hkept : ∀ guard body otherwise opening closing body' otherwise',
      P (conditional guard body otherwise opening closing) → selected? guard.fold closing = none →
        P' (conditional guard.fold body' otherwise' opening closing))
    {ns : List Node} (h : Everywhere P ns) : Everywhere P' (simplifyAll ns) := by
  induction ns using body_induction with
  | nil => exact everywhere_nil
  | leaf n ns hn ih =>
    obtain ⟨hhead, htail⟩ := everywhere_cons.mp h
    rw [simplifyAll, everywhere_append]
    exact ⟨hleaf n hn ((everywhere_leaf hn).mp hhead), ih htail⟩
  | conditional guard body otherwise opening closing ns ihBody ihBranch ih =>
    obtain ⟨hhead, htail⟩ := everywhere_cons.mp h
    obtain ⟨hnode, hbody, hbranch⟩ := everywhere_conditional.mp hhead
    have hbranch' : ∀ branch ∈ otherwise.map simplifyAll, Everywhere P' branch := by
      intro branch hmem
      obtain ⟨branch', hmem', rfl⟩ := Option.map_eq_some_iff.mp hmem
      exact ihBranch branch' hmem' (hbranch branch' hmem')
    rw [simplifyAll, everywhere_append, simplify_conditional]
    refine ⟨?_, ih htail⟩
    -- Either branch may take the place of the conditional, or both are kept in it.
    have hkept := hkept guard body otherwise opening closing (simplifyAll body)
      (otherwise.map simplifyAll) hnode
    unfold selected? at hkept
    unfold select
    split
    · exact ihBody hbody
    · cases hother : otherwise.map simplifyAll with
      | none => exact everywhere_nil
      | some branch => exact hbranch' branch hother
    · next htrue hfalse =>
      refine everywhere_conditional.mpr ⟨hkept ?_, ihBody hbody, hbranch'⟩
      split
      · next b pos hguard =>
        cases b with
        | true => exact absurd rfl (htrue pos hguard)
        | false => exact absurd rfl (hfalse pos hguard)
      · rfl

/-- **Simplifying keeps what a body does**, on every store. -/
theorem runAll_simplifyAll (host : Host Foreign) {ns : List Node} (h : Everywhere FloatFree ns)
    (σ : Store Foreign) : runAll host (simplifyAll ns) σ = runAll host ns σ := by
  induction ns using body_induction generalizing σ with
  | nil => rfl
  | leaf n ns hn ih =>
    obtain ⟨hhead, htail⟩ := everywhere_cons.mp h
    rw [everywhere_leaf hn] at hhead
    have hstep : runAll host n.simplify σ = n.run host σ := by
      cases n with
      | conditional => cases hn
      | choice c =>
        rw [run]
        exact runAll_simplify_choice host σ fun e he => hhead e (Option.mem_toList.mpr he)
      | assignment a =>
        rw [simplify, runAll_singleton, run, run,
          Assignment.run_fold host σ (hhead a.value (List.mem_singleton_self _))]
      | _ => exact runAll_singleton host _ σ
    have hrest : runAll host (simplifyAll ns) = runAll host ns := funext (ih htail)
    rw [simplifyAll, runAll_append, hstep, hrest, runAll]
  | conditional guard body otherwise opening closing ns ihBody ihBranch ih =>
    obtain ⟨hhead, htail⟩ := everywhere_cons.mp h
    obtain ⟨hguard, hbody, hbranch⟩ := everywhere_conditional.mp hhead
    have hrest : runAll host (simplifyAll ns) = runAll host ns := funext (ih htail)
    have hbranchRun : runAll host ((otherwise.map simplifyAll).getD []) σ
        = runAll host (otherwise.getD []) σ := by
      cases otherwise with
      | none => rfl
      | some branch => exact ihBranch branch rfl (hbranch branch rfl) σ
    have hstep : runAll host (conditional guard body otherwise opening closing).simplify σ
        = (conditional guard body otherwise opening closing).run host σ := by
      rw [simplify_conditional, runAll_select, run_conditional, run_conditional,
        Expr.eval_fold host σ (hguard guard (List.mem_singleton_self _))]
      -- Folding keeps the value of the guard, so both run the same branch, or both fail.
      cases guard.eval host σ with
      | none => rfl
      | some v =>
        cases hv : v.truthy with
        | true => simpa [hv] using ihBody hbody σ
        | false => simpa [hv] using hbranchRun
    rw [simplifyAll, runAll_append, hstep, hrest, runAll]

end Node

/-- **Simplifying preserves what every passage does.** In a story where no decimal is written, each
passage keeps its place, and whatever the host and the store it starts with, running its simplified body
leads to the same events, the same store and the same ending, failures included. -/
theorem Story.run_simplify {s : Story} (h : s.FloatFree) :
    s.simplify.passages.length = s.passages.length ∧
      ∀ (i : Nat) (p : Passage), s.passages[i]? = some p →
        ∃ q : Passage, s.simplify.passages[i]? = some q ∧ q.name = p.name ∧
          ∀ (Foreign : Type) (host : Host Foreign) (σ : Store Foreign),
            Node.runAll host q.body σ = Node.runAll host p.body σ := by
  refine ⟨List.length_map .., ?_⟩
  intro i p hp
  refine ⟨p.simplify, ?_, rfl, ?_⟩
  · simp [Story.simplify, hp]
  · intro Foreign host σ
    exact Node.runAll_simplifyAll host (h p (List.mem_of_getElem? hp)) σ

/-- A sum that wraps around, a guard whose right operand could fail but is never evaluated, and text below
a jump. -/
theorem Story.run_simplify_gate :
    let guard : Expr := .binary .and (.bool false) (.binary .div (.int 1) (.named "x"))
    let overflow : Expr := .binary .add (.int 9223372036854775807) (.int 1)
    let gate : Passage := (Passage.named "Gate").addAssignment "x" .add overflow
      |>.add (.conditional guard [.text "never" .unplaced] (some [.divert "Hall" .unplaced]) .unplaced
        (some .unplaced))
      |>.addText "after"
    let s := Story.empty.add gate
    s.FloatFree ∧
      ∃ q : Passage, s.simplify.passages[0]? = some q ∧ q.name = "Gate" ∧
        ∀ (Foreign : Type) (host : Host Foreign) (σ : Store Foreign),
          Node.runAll host q.body σ = Node.runAll host gate.body σ := by
  intro guard overflow gate s
  have hfree : s.FloatFree := by decide
  exact ⟨hfree, (Story.run_simplify hfree).2 0 gate rfl⟩

end Gamebook
