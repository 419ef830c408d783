/-
# Gamebook.Proofs.Lua.Expr — Lua reads an expression as it is meant

The text that is written for an expression has words, and by the grammar of Lua these have one tree, which is
the tree of the expression (`expr_derives_tree`). Two things could go wrong. Lua has its own ranks: a text that
needs no parentheses among the operators of the story script may need them there, on either side of an
operator, so an operand is written for a level of Lua (`Phrase.operand`). And two minus signs, wherever the
second one comes from, would start a comment (`Phrase.neg`).
-/
import Gamebook.Proofs.Body
import Gamebook.Proofs.Lua.Grammar

namespace Gamebook.Lua

/-! ## The tree of an expression -/

/-- The tree of a literal. Lua has no negative numerals, and no numeral at all for the least integer. -/
def literalTree : Literal → Term
  | .int n =>
    if n = Int64.minValue then .field (.name "math") "mininteger"
    else if n < 0 then .unary .neg (.integer n.toInt.natAbs)
    else .integer n.toInt.natAbs
  | .float f => .decimal f
  | .str s => .string (bytes s)
  | .bool b => .bool b

/-- The tree of an expression, with its variables asked of the host. -/
def tree : Expr → Term
  | .literal v => literalTree v
  | .var name _ => .invoke (.name "rt") "get" (.string (bytes name))
  | .unary op e => .unary op (tree e)
  | .binary op l r => .binary op (tree l) (tree r)

/-! ## Levels and ranks -/

/-- Whether a level has an operator below a rank. -/
def isLooser (r : Nat) (ops : List BinaryOp) : Bool := ops.any (opRank · < r)

/-- The levels from a rank on. -/
def levelsFrom (r : Nat) : List (List BinaryOp) := levels.dropWhile (isLooser r)

theorem levelsFrom_opRank (op : BinaryOp) :
    ∃ ops, op ∈ ops ∧ levelsFrom (opRank op) = ops :: levelsFrom (opRank op + 1) := by
  cases op <;> exact ⟨_, by decide, rfl⟩

theorem isLooser_mono {r r' : Nat} (h : r ≤ r') {ops : List BinaryOp} (hr : isLooser r ops = true) :
    isLooser r' ops = true := by
  obtain ⟨op, hop, hlt⟩ := List.any_eq_true.mp hr
  exact List.any_eq_true.mpr ⟨op, hop, decide_eq_true (Nat.lt_of_lt_of_le (of_decide_eq_true hlt) h)⟩

theorem levelsFrom_suffix {r r' : Nat} (h : r ≤ r') : levelsFrom r' <:+ levelsFrom r := by
  unfold levelsFrom
  induction levels with
  | nil => exact List.suffix_rfl
  | cons ops ls ih =>
    by_cases hr : isLooser r ops = true
    · rw [List.dropWhile_cons_of_pos hr, List.dropWhile_cons_of_pos (isLooser_mono h hr)]
      exact ih
    · rw [List.dropWhile_cons_of_neg (p := isLooser r) hr]
      exact List.dropWhile_suffix _

/-! ## Phrases -/

/-- Whether a text, wherever it stands, has words with the tree `t` in an operation of the given levels. -/
def Phrase (ls : List (List BinaryOp)) (text : List Char) (t : Term) : Prop :=
  ∃ ws, Spells text ws ∧ Derives (.operation ls) ws t

namespace Phrase

variable {ls : List (List BinaryOp)} {text : List Char} {t : Term}

theorem of_suffix {ls' : List (List BinaryOp)} (h : Phrase ls text t) (hsuffix : ls <:+ ls') :
    Phrase ls' text t := by
  obtain ⟨ws, hspells, hderives⟩ := h
  exact ⟨ws, hspells, hderives.of_suffix hsuffix⟩

/-- A phrase of any level is an operand in parentheses. -/
theorem group (h : Phrase levels text t) : Phrase [] ('(' :: (text ++ [')'])) t := by
  obtain ⟨ws, hspells, hderives⟩ := h
  exact ⟨_, hspells.group, .suffixed (.group hderives)⟩

/-- An operand gets parentheses exactly where its rank would tear it apart. -/
theorem operand {e : Expr} (h : Phrase (levelsFrom (rank e)) (expr e) t) (r : Nat) :
    Phrase (levelsFrom r) (Expr.enclose (rank e < r) (expr e)) t := by
  by_cases hrank : rank e < r
  · rw [Expr.enclose, if_pos (decide_eq_true hrank)]
    exact (h.of_suffix (List.dropWhile_suffix _)).group.of_suffix (List.nil_suffix)
  · rw [Expr.enclose, if_neg (by simpa using hrank)]
    exact h.of_suffix (levelsFrom_suffix (Nat.not_lt.mp hrank))

/-- A minus sign negates the operand after it, and starts no comment. -/
theorem neg (h : Phrase [] text t) : Phrase [] (unary .neg text) (.unary .neg t) := by
  rw [unary]
  by_cases hhead : text.head? = some '-'
  · have hgroup := (h.of_suffix (List.nil_suffix)).group
    obtain ⟨ws, hspells, hderives⟩ := hgroup
    rw [Expr.enclose, if_pos (decide_eq_true hhead)]
    exact ⟨_, hspells.minus (by simp), .neg hderives⟩
  · obtain ⟨ws, hspells, hderives⟩ := h
    rw [Expr.enclose, if_neg (by simpa using hhead)]
    exact ⟨_, hspells.minus hhead, .neg hderives⟩

theorem unary (op : UnaryOp) (h : Phrase [] text t) : Phrase [] (Lua.unary op text) (.unary op t) := by
  cases op with
  | not =>
    obtain ⟨ws, hspells, hderives⟩ := h
    exact ⟨_, hspells.not, .not hderives⟩
  | neg => exact h.neg

/-- An operator takes an operand of its own level on the left, and a tighter one on the right. -/
theorem binary {text' : List Char} {u : Term} (op : BinaryOp) (hl : Phrase (levelsFrom (opRank op)) text t)
    (hr : Phrase (levelsFrom (opRank op + 1)) text' u) :
    Phrase (levelsFrom (opRank op)) (text ++ ' ' :: ((spelling op).toList ++ ' ' :: text'))
      (.binary op t u) := by
  obtain ⟨ops, hop, hlevels⟩ := levelsFrom_opRank op
  obtain ⟨ws, hspells, hderives⟩ := hl
  obtain ⟨ws', hspells', hderives'⟩ := hr
  rw [hlevels] at hderives ⊢
  exact ⟨_, hspells.binary op hspells', .binary hop hderives hderives'⟩

end Phrase

/-- A number in range is written in digits, after a minus sign if it is negative. -/
theorem phrase_integer {n : Int64} (hmin : n ≠ Int64.minValue) :
    Phrase [] (Decimal.integer n)
      (if n < 0 then .unary .neg (.integer n.toInt.natAbs) else .integer n.toInt.natAbs) := by
  have hrange : n.toInt.natAbs ≤ Lexeme.maxInteger := by
    have hlt := Int64.toInt_lt n
    have hle := Int64.le_toInt n
    have hne : n.toInt ≠ -2 ^ 63 := fun h => hmin (Int64.toInt_inj.mp (h.trans Int64.toInt_minValue.symm))
    rw [Lexeme.maxInteger]
    omega
  have hdigits : Spells (Decimal.digits n.toInt.natAbs) [.integer n.toInt.natAbs] :=
    fun rest hrest => cuts_digits hrange hrest
  rw [Decimal.integer]
  by_cases hneg : n < 0
  · rw [if_pos hneg, Decimal.sign, if_pos (decide_eq_true hneg)]
    refine ⟨_, hdigits.minus fun hhead => ?_, .neg (.integer _)⟩
    have hdash := Lexeme.isDigit_of_mem_digits (List.mem_of_mem_head? hhead)
    exact absurd hdash (by decide)
  · rw [if_neg hneg, Decimal.sign, if_neg (by simpa using hneg)]
    exact ⟨_, hdigits, .integer _⟩

theorem phrase_literal {v : Literal} (hv : v.isFloat = false) : Phrase [] (literal v) (literalTree v) := by
  cases v with
  | int n =>
    rw [literal, literalTree]
    by_cases hmin : n = Int64.minValue
    · rw [if_pos hmin, if_pos hmin]
      exact ⟨_, spells_mininteger, .suffixed (.field (.name "math") "mininteger")⟩
    · rw [if_neg hmin, if_neg hmin]
      exact phrase_integer hmin
  | float f => cases hv
  | str s => exact ⟨_, fun rest _ => cuts_quoted s rest, .string (bytes s)⟩
  | bool b => exact ⟨_, spells_bool b, .bool b⟩

theorem phrase_fetch (name : String) :
    Phrase [] (fetch name) (.invoke (.name "rt") "get" (.string (bytes name))) := by
  have hargument : Derives (.operation levels) [.string (bytes name)] (.string (bytes name)) :=
    (Derives.string (bytes name)).of_suffix (List.nil_suffix)
  exact ⟨_, spells_fetch name, .suffixed (.invoke (.name "rt") "get" hargument)⟩

/-- The text of an expression is a phrase at its rank. -/
theorem phrase_expr {e : Expr} (he : e.isFloatFree = true) :
    Phrase (levelsFrom (rank e)) (expr e) (tree e) := by
  induction e with
  | literal v =>
    have hv : v.isFloat = false := by simpa [Expr.isFloatFree] using he
    exact phrase_literal hv
  | var name pos => exact phrase_fetch name
  | unary op e ih => exact ((ih he).operand unaryRank).unary op
  | binary op l r ihl ihr =>
    rw [Expr.isFloatFree, Bool.and_eq_true] at he
    exact .binary op ((ihl he.1).operand (opRank op)) ((ihr he.2).operand (opRank op + 1))

/-- **Lua reads an expression as it is meant.** The text of an expression without decimals is cut into words,
and the grammar gives them the tree of the expression and no other. -/
theorem expr_derives_tree (e : Expr) (he : e.isFloatFree = true) :
    ∃ ws, words (expr e) = some ws ∧ ∀ t, Derives (.operation levels) ws t ↔ t = tree e := by
  obtain ⟨ws, hspells, hderives⟩ := phrase_expr he
  have htree : Derives (.operation levels) ws (tree e) := hderives.of_suffix (List.dropWhile_suffix _)
  refine ⟨ws, hspells.words, fun t => ⟨fun ht => ht.unique htree, ?_⟩⟩
  rintro rfl
  exact htree

/-- A comparison inside a comparison, on the side where Lua needs parentheses, and signs before signs. -/
theorem expr_derives_tree_signs :
    let e : Expr := .binary .lt (.unary .neg (.unary .neg (.named "hp")))
      (.binary .eq (.int Int64.minValue) (.unary .not (.unary .neg (.int (-3)))))
    e.isFloatFree = true ∧
      expr e = "-(-rt:get(\"hp\")) < (math.mininteger == not -(-3))".toList ∧
      ∃ ws, words (expr e) = some ws ∧ ∀ t, Derives (.operation levels) ws t ↔
        t = .binary .lt (.unary .neg (.unary .neg (.invoke (.name "rt") "get" (.string [104, 112]))))
          (.binary .eq (.field (.name "math") "mininteger")
            (.unary .not (.unary .neg (.unary .neg (.integer 3))))) :=
  ⟨rfl, by decide +kernel, expr_derives_tree _ rfl⟩

end Gamebook.Lua
