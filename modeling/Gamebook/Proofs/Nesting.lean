/-
# Gamebook.Proofs.Nesting — how high the expressions of a story are

The stages after reading go down the tree of an expression, so its height matters. Two limits are kept while
an expression is read: `maxNesting` unary operators and parentheses around an operand, and the height
`maxNesting` of every operation with two operands. A unary operator checks no height, so the operators in
front of an expression come on top of the second limit (`Story.depth_le_of_mem_exprs`). A parenthesis spends
one of the first limit and adds no height, which leaves 127 operators for the highest operation there is: an
expression of height 255 can be read, and none of 256.
-/
import Gamebook.Proofs.Reading.Everywhere
import Gamebook.Proofs.Spelling.Expr

namespace Gamebook

namespace Expr

/-- How many unary operators stand in front of an expression. -/
def leading : Expr → Nat
  | unary _ e => e.leading + 1
  | _ => 0

namespace Derives

variable {budget levels : Nat} {ts : List Token} {e : Expr}

/-- The operators in front are paid from the budget. -/
theorem leading_le (h : Derives budget levels ts e) : e.leading ≤ budget := by
  induction h with
  | literal | var | binary => exact Nat.zero_le _
  | unary hop operand ih => exact Nat.succ_le_succ ih
  | group hopen hclose inner ih => exact Nat.le_succ_of_le ih
  | loosen inner ih => exact ih

/-- Only the operators in front of an expression stand above the limit. -/
theorem depth_le (h : Derives budget levels ts e) : e.depth ≤ maxNesting + e.leading := by
  induction h with
  | literal | var => exact (by decide : 1 ≤ maxNesting)
  | unary hop operand ih => exact Nat.succ_le_succ ih
  | group hopen hclose inner ih | loosen inner ih => exact ih
  | binary hlevels hop hrank left right hdepth => exact hdepth

/-- At the tightest level an expression is lower than its budget and the limit together. An operation with
two operands may reach the limit without any budget, but then it stands at a looser level, and the
parentheses that bring it back to the tightest one cost one of the budget. -/
theorem depth_lt (h : Derives budget levels ts e) :
    e.depth < budget + maxNesting ∨ 0 < levels ∧ e.depth ≤ maxNesting := by
  induction h with
  | literal budget hliteral hvalue =>
    have hone : 1 < maxNesting := by decide
    left
    show 1 < budget + maxNesting
    omega
  | var budget hdollar hname =>
    have hone : 1 < maxNesting := by decide
    left
    show 1 < budget + maxNesting
    omega
  | @unary budget t op ts e hop operand ih =>
    left
    show e.depth + 1 < budget + 1 + maxNesting
    omega
  | group hopen hclose inner ih =>
    left
    omega
  | loosen inner ih =>
    rcases ih with ih | ⟨-, ih⟩
    · exact .inl ih
    · exact .inr ⟨Nat.succ_pos _, ih⟩
  | binary hlevels hop hrank left right hdepth => exact .inr ⟨Nat.succ_pos _, hdepth⟩

end Derives

end Expr

/-- **How high an expression of a story can be,** whatever tokens the story was read from: the operators in
front of it, of which there are at most `maxNesting`, may come on top of the limit. So an expression with no
operator in front of it keeps to the limit, and no expression reaches twice the limit. -/
theorem Story.depth_le_of_mem_exprs (tokens : List Token) {e : Expr}
    (he : e ∈ (Story.ofTokens tokens).story.exprs) :
    e.leading ≤ maxNesting ∧ e.depth ≤ maxNesting + e.leading ∧ e.depth < 2 * maxNesting := by
  obtain ⟨p, hp, n, hn, he⟩ := Story.mem_exprs.mp he
  have hreads := Node.reads_exprs (tokens.filter fun t => !t.kind.isTrivia)
    (Q := fun e => e.leading ≤ maxNesting ∧ e.depth ≤ maxNesting + e.leading ∧ e.depth < 2 * maxNesting)
  refine Story.everywhere_ofTokens (hreads (fun used e h => ?_) ?_) p hp n hn e he
  · have hdepth := h.depth_lt
    refine ⟨h.leading_le, h.depth_le, ?_⟩
    rw [maxNesting] at hdepth ⊢
    omega
  · decide

/-- Both bounds are reached at once, by 127 signs in front of a sum of 128 ones in parentheses. -/
theorem Story.depth_signed_sum :
    let ones := Nat.repeat (fun e => .binary .add e (.int 1)) 127 (.int 1)
    let tower : Expr := Nat.repeat (.unary .neg) 127 ones
    let line : List Token := .word .dollar ['$'] :: .word .identifier ['x'] :: .word (.assign .set) ['=']
      :: tower.spelling
    let tokens : List Token := .word .passageMarker [':', ':'] :: .word .identifier ['A'] :: .lineBreak :: line
    tower ∈ (Story.ofTokens tokens).story.exprs ∧ tower.leading = 127 ∧ tower.depth = 255 ∧
      tower.leading ≤ maxNesting ∧ tower.depth ≤ maxNesting + tower.leading ∧
        tower.depth < 2 * maxNesting := by
  intro ones tower line tokens
  have hmem : tower ∈ (Story.ofTokens tokens).story.exprs := by decide +kernel
  exact ⟨hmem, by decide +kernel, by decide +kernel, Story.depth_le_of_mem_exprs tokens hmem⟩

/-- The limit is no bound on the height: 128 signs in front of a number are read without an error. -/
theorem Story.depth_signed_number :
    (Story.ofSource (String.ofList (":: A\n$x = ".toList ++ List.replicate 128 '-' ++ "1\n".toList))
      ).toOption.map (fun s => s.exprs.map Expr.depth) = some [maxNesting + 1] := by
  rw [Story.ofSource, Lexed.ofSource, Lexed.lexemes, Text.normalChars, String.toList_ofList]
  decide +kernel

end Gamebook
