/-
# Gamebook.Proofs.Signs — negative numbers as they are written and read

Folding makes negative literals, which no source holds: a minus sign is an operator. Written with its sign
before its digits, a negative literal has the text of an operator before a literal, and so it is read back
as one (`Expr.signed`). That tree may be one higher than the literal, but no higher than the expression
that was folded (`Expr.depth_signed_fold`), and it folds to the literal again (`Expr.fold_signed`). The
least integer would be an exception to all of this; folding never makes it.
-/
import Gamebook.Proofs.Folding
import Gamebook.Proofs.Spelling.Expr

namespace Gamebook

open Gamebook.Lexeme

/-! ## Literals -/

namespace Literal

/-- Whether a literal has a text of its own, with a minus sign before it or without. -/
def isSpelled : Literal → Bool
  | .int n => n ≠ Int64.minValue
  | .float _ => false
  | .str s => !s.toList.contains '\r'
  | .bool _ => true

/-- A literal as it is read back from its text. -/
def signed : Literal → Expr
  | .int n => if n < 0 then .unary .neg (.literal (.int (-n))) else .literal (.int n)
  | v => .literal v

/-- What is spelled with a sign: a negative number, or nothing. -/
inductive SignedForm (v : Literal) : Prop where
  | negative (k : Nat) (hpos : 0 < k) (hk : k ≤ maxInteger) (hv : v = int (-Int64.ofNat k))
      (hsigned : v.signed = .unary .neg (.literal (int (Int64.ofNat k))))
  | plain (hword : v.isWord = true) (hsigned : v.signed = .literal v)

/-- A negative integer is the negation of a natural number in range, the least one apart. -/
theorem exists_nat_of_neg {n : Int64} (hneg : n < 0) (hmin : n ≠ Int64.minValue) :
    ∃ k, 0 < k ∧ k ≤ maxInteger ∧ n = -Int64.ofNat k := by
  have hlt : n.toInt < 0 := Int64.lt_iff_toInt_lt.mp hneg
  have hle : -2 ^ 63 ≤ n.toInt := Int64.le_toInt n
  have hne : n.toInt ≠ -2 ^ 63 := fun h => hmin (Int64.toInt_inj.mp (h.trans Int64.toInt_minValue.symm))
  refine ⟨n.toInt.natAbs, by omega, ?_, ?_⟩
  · rw [maxInteger]
    omega
  · rw [← Int64.ofInt_eq_ofNat, ← Int64.ofInt_neg, Int.ofNat_natAbs_of_nonpos (by omega), Int.neg_neg,
      Int64.ofInt_toInt]

/-- The text of a negative number is a minus sign and the digits of its magnitude. -/
theorem chars_int_neg {k : Nat} (hpos : 0 < k) (h : k ≤ maxInteger) :
    (int (-Int64.ofNat k)).chars = '-' :: Decimal.digits k := by
  rw [maxInteger] at h
  have hint : (-Int64.ofNat k).toInt = -k := Int64.toInt_neg_ofNat_of_le (by omega)
  have hmin : -Int64.ofNat k ≠ Int64.minValue := by
    intro heq
    have := Int64.toInt_minValue
    rw [← heq, hint] at this
    omega
  have hneg : -Int64.ofNat k < 0 := by
    rw [Int64.lt_iff_toInt_lt, hint]
    show -(k : Int) < 0
    omega
  rw [chars, if_neg hmin, Decimal.integer, hint, Int.natAbs_neg, Int.natAbs_natCast]
  simp [hneg, Decimal.sign]

theorem signed_cases {v : Literal} (h : v.isSpelled = true) : v.SignedForm := by
  cases v with
  | int n =>
    have hmin : n ≠ Int64.minValue := of_decide_eq_true h
    by_cases hneg : n < 0
    · obtain ⟨k, hpos, hk, rfl⟩ := exists_nat_of_neg hneg hmin
      refine .negative k hpos hk rfl ?_
      rw [signed, if_pos hneg, Int64.neg_neg]
    · refine .plain (decide_eq_true (Int64.not_lt.mp hneg)) ?_
      rw [signed, if_neg hneg]
  | float f => cases h
  | str s => exact .plain h rfl
  | bool b => exact .plain rfl rfl

theorem isWord_ofNat {k : Nat} (h : k ≤ maxInteger) : (int (Int64.ofNat k)).isWord = true := by
  have hint : (Int64.ofNat k).toInt = k := Int64.toInt_ofNat_of_lt (by rw [maxInteger] at h; omega)
  rw [isWord, decide_eq_true_eq, Int64.le_iff_toInt_le, hint]
  exact Int.natCast_nonneg k

theorem isSpelled_of_isWord {v : Literal} (h : v.isWord = true) : v.isSpelled = true := by
  cases v with
  | int n =>
    have hn : 0 ≤ n := of_decide_eq_true h
    refine decide_eq_true fun hmin => ?_
    rw [hmin] at hn
    exact absurd hn (by decide)
  | float f => cases h
  | str s => exact h
  | bool b => rfl

theorem signed_of_isWord {v : Literal} (h : v.isWord = true) : v.signed = .literal v := by
  cases v with
  | int n => exact if_neg (Int64.not_lt.mpr (of_decide_eq_true h))
  | _ => rfl

/-! ## What folding makes of literals -/

theorem isSpelled_of_unary? {op : UnaryOp} {a v : Literal} (ha : a.isSpelled = true)
    (h : unary? op a = some v) : v.isSpelled = true := by
  cases op with
  | not =>
    cases a with
    | bool b =>
      cases h
      rfl
    | _ => cases h
  | neg =>
    cases a with
    | int n =>
      rw [unary?, Option.ite_none_left_eq_some] at h
      obtain ⟨hmin, hv⟩ := h
      cases hv
      -- The least integer is its own negation.
      refine decide_eq_true fun hneg => hmin ?_
      rw [← Int64.neg_neg (a := n), hneg]
      rfl
    | float f => cases ha
    | _ => cases h

/-- Integer arithmetic that is carried out stays clear of the least integer. -/
theorem isSpelled_of_ofInt? {n : Int} {v : Literal} (h : ofInt? n = some v) : v.isSpelled = true := by
  rw [ofInt?, Option.ite_none_right_eq_some] at h
  obtain ⟨⟨hlow, hhigh⟩, hv⟩ := h
  rw [maxInt] at hlow hhigh
  cases hv
  refine decide_eq_true fun hmin => ?_
  have hint : (Int64.ofInt n).toInt = n := Int64.toInt_ofInt_of_le (by omega) (by omega)
  rw [hmin, Int64.toInt_minValue] at hint
  omega

theorem isSpelled_of_arith? {op : BinaryOp} {a b v : Literal} (ha : a.isSpelled = true)
    (hb : b.isSpelled = true) (h : arith? op a b = some v) : v.isSpelled = true := by
  cases a with
  | int m =>
    cases b with
    | int n =>
      obtain ⟨k, -, hv⟩ := Option.bind_eq_some_iff.mp h
      exact isSpelled_of_ofInt? hv
    | float f => cases hb
    | _ => cases h
  | float f => cases ha
  | _ => cases h

theorem isSpelled_of_binary? {op : BinaryOp} {a b v : Literal} (ha : a.isSpelled = true)
    (hb : b.isSpelled = true) (h : binary? op a b = some v) : v.isSpelled = true := by
  have htruth : ∀ {x : Option Bool} {f : Bool → Bool}, x.map (fun c => bool (f c)) = some v →
      v.isSpelled = true := by
    intro x f hx
    obtain ⟨c, -, rfl⟩ := Option.map_eq_some_iff.mp hx
    rfl
  cases op with
  | add | sub | mul => exact isSpelled_of_arith? ha hb h
  | div | mod => cases h
  | eq | lt | gt | and | or => exact htruth (f := id) h
  | ne | le | ge => exact htruth (f := not) h

end Literal

/-! ## Expressions -/

namespace Expr

/-- Whether the literals and names of an expression have texts of their own. -/
def isSpelled : Expr → Bool
  | literal v => v.isSpelled
  | var name _ => isName name.toList
  | unary _ e => e.isSpelled
  | binary _ l r => l.isSpelled && r.isSpelled

/-- An expression as it is read back from its text, with the signs of its literals as operators. -/
def signed : Expr → Expr
  | literal v => v.signed
  | var name pos => var name pos
  | unary op e => unary op e.signed
  | binary op l r => binary op l.signed r.signed

/-- A sign binds as tight as the literal it belongs to, so the parentheses stay where they are. -/
theorem rank_signed (e : Expr) : e.signed.rank = e.rank := by
  cases e with
  | literal v =>
    cases v with
    | int n =>
      rw [signed, Literal.signed]
      split <;> rfl
    | _ => rfl
  | _ => rfl

/-- Signs are written where they belong. -/
theorem chars_signed {e : Expr} (h : e.isSpelled = true) : e.signed.chars = e.chars := by
  induction e with
  | literal v =>
    rw [signed]
    cases Literal.signed_cases h with
    | negative k hpos hk hv hsigned =>
      rw [hsigned, hv, chars, chars, chars, Literal.chars_int_neg hpos hk, Literal.chars_int_ofNat hk]
      rfl
    | plain _ hsigned => rw [hsigned]
  | var name pos => rfl
  | unary op e ih => rw [signed, chars, rank_signed, ih h, chars]
  | binary op l r ihl ihr =>
    rw [isSpelled, Bool.and_eq_true] at h
    rw [signed, chars, rank_signed, rank_signed, ihl h.1, ihr h.2, chars]

/-- With its signs as operators an expression holds only what can be written. -/
theorem isWritten_signed {e : Expr} (h : e.isSpelled = true) : e.signed.isWritten = true := by
  induction e with
  | literal v =>
    rw [signed]
    cases Literal.signed_cases h with
    | negative k _ hk _ hsigned =>
      rw [hsigned]
      exact Literal.isWord_ofNat hk
    | plain hword hsigned =>
      rw [hsigned]
      exact hword
  | var name pos => exact h
  | unary op e ih => exact ih h
  | binary op l r ihl ihr =>
    rw [isSpelled, Bool.and_eq_true] at h
    rw [signed, isWritten, ihl h.1, ihr h.2]
    rfl

/-- **Folding takes the signs back.** -/
theorem fold_signed {e : Expr} (h : e.isSpelled = true) (hfold : e.fold = e) : e.signed.fold = e := by
  induction e with
  | literal v =>
    rw [signed]
    cases Literal.signed_cases h with
    | negative k _ hk hv hsigned =>
      have hmin : Int64.ofNat k ≠ Int64.minValue :=
        of_decide_eq_true (Literal.isSpelled_of_isWord (Literal.isWord_ofNat hk))
      rw [hsigned, hv, fold, fold, foldUnary]
      simp only [literal?, Option.bind_some, Literal.unary?, if_neg hmin]
    | plain _ hsigned => rw [hsigned, fold]
  | var name pos => rfl
  | unary op e ih =>
    have hoperand := fold_operand hfold
    rw [fold, hoperand] at hfold
    rw [signed, fold, ih h hoperand, hfold]
  | binary op l r ihl ihr =>
    rw [isSpelled, Bool.and_eq_true] at h
    obtain ⟨hl, hr⟩ := fold_operands hfold
    rw [fold, hl, hr] at hfold
    rw [signed, fold, ihl h.1 hl, ihr h.2 hr, hfold]

/-- What folding makes of an expression that was read has a text. -/
theorem isSpelled_fold {e : Expr} (h : e.isWritten = true) : e.fold.isSpelled = true := by
  induction e with
  | literal v => exact Literal.isSpelled_of_isWord h
  | var name pos => exact h
  | unary op e ih =>
    have hoperand := ih h
    rw [fold]
    cases foldUnary_cases op e.fold with
    | computed a v ha hv hfold =>
      rw [ha] at hoperand
      rw [hfold]
      exact Literal.isSpelled_of_unary? hoperand hv
    | kept hkept =>
      rw [hkept]
      exact hoperand
  | binary op l r ihl ihr =>
    rw [isWritten, Bool.and_eq_true] at h
    have hl := ihl h.1
    have hr := ihr h.2
    rw [fold]
    cases foldBinary_cases op l.fold r.fold with
    | decided b hfold =>
      rw [hfold]
      rfl
    | computed a b v ha hb hv hfold =>
      rw [ha] at hl
      rw [hb] at hr
      rw [hfold]
      exact Literal.isSpelled_of_binary? hl hr hv
    | kept hkept =>
      rw [hkept, isSpelled, hl, hr]
      rfl

theorem depth_literal_signed (v : Literal) : v.signed.depth ≤ 2 := by
  cases v with
  | int n =>
    rw [Literal.signed]
    split
    · exact Nat.le_refl 2
    · exact Nat.le_succ 1
  | _ => exact Nat.le_succ 1

theorem one_le_depth (e : Expr) : 1 ≤ e.depth := by
  cases e with
  | literal v | var name pos => exact Nat.le_refl 1
  | unary op e => exact Nat.le_add_left 1 _
  | binary op l r => exact Nat.le_add_left 1 _

/-- **A sign takes no more room than the operation that made it.** -/
theorem depth_signed_fold {e : Expr} (h : e.isWritten = true) : e.fold.signed.depth ≤ e.depth := by
  induction e with
  | literal v =>
    rw [fold, signed, Literal.signed_of_isWord h]
  | var name pos => exact Nat.le_refl 1
  | unary op e ih =>
    have hoperand := ih h
    rw [fold, depth]
    cases foldUnary_cases op e.fold with
    | computed _ v _ _ hfold =>
      have hone := one_le_depth e
      have htwo := depth_literal_signed v
      rw [hfold, signed]
      omega
    | kept hkept =>
      rw [hkept, signed, depth]
      omega
  | binary op l r ihl ihr =>
    rw [isWritten, Bool.and_eq_true] at h
    have hl := ihl h.1
    have hr := ihr h.2
    have hone := one_le_depth l
    rw [fold, depth]
    cases foldBinary_cases op l.fold r.fold with
    | decided b hfold =>
      have htwo := depth_literal_signed (.bool b)
      rw [hfold, signed]
      omega
    | computed _ _ v _ _ _ hfold =>
      have htwo := depth_literal_signed v
      rw [hfold, signed]
      omega
    | kept hkept =>
      rw [hkept, signed, depth]
      omega

end Expr

end Gamebook
