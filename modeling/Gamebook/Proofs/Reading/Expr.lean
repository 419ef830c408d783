/-
# Gamebook.Proofs.Reading.Expr — what the reader of expressions takes and builds

The reader looks at its tokens once, from left to right, with two counters: how many ranks it may use, and
how many unary operators and parentheses may still stand around an operand. `Expr.Derives` is the grammar
behind it with both counters in it: which tokens can be taken as which expression. Whatever the tokens, the
reader takes a beginning of them that the grammar derives (`Expr.read_derives`), so a fact about all
expressions that are read is an induction over derivations and never opens the reader again. On the way from atoms to
expressions the reader is taken layer by layer (`Expr.operation_atom`).
-/
import Gamebook.Proofs.Reading.Climbing

namespace Gamebook

/-! ## Readers -/

/-- A token that was expected is there. -/
theorem LineEnd.expect_eq_ok {stop : LineEnd} {kind : TokenKind} {what : Expectation} {ts rest : List Token}
    (h : stop.expect kind what ts = .ok ((), rest)) : ∃ t, t.kind = kind ∧ ts = t :: rest := by
  cases ts with
  | nil => cases h
  | cons t ts =>
    rw [LineEnd.expect] at h
    split at h
    · next hkind =>
      cases h
      exact ⟨t, hkind, rfl⟩
    · cases h

/-- A name that was expected is there. -/
theorem LineEnd.expectName_eq_ok {stop : LineEnd} {fault : Option String → SyntaxFault} {name : String}
    {ts rest : List Token} (h : stop.expectName fault ts = .ok (name, rest)) :
    ∃ t, t.kind = .identifier ∧ t.raw = name ∧ ts = t :: rest := by
  cases ts with
  | nil => cases h
  | cons t ts =>
    rw [LineEnd.expectName] at h
    split at h
    · next hkind =>
      cases h
      exact ⟨t, hkind, rfl, rfl⟩
    · cases h

/-- A reader takes only tokens that stand for what it returns, and leaves the others. -/
def Takes {α : Type} (reader : LineReader α) (P : List Token → α → Prop) : Prop :=
  ∀ ⦃ts : List Token⦄ ⦃v : α⦄ ⦃rest : List Token⦄, reader ts = .ok (v, rest) →
    ∃ used, ts = used ++ rest ∧ P used v

/-! ## Derivations -/

namespace Expr

/-- `Derives budget levels ts e`: with the `levels` tightest ranks the tokens `ts` can be taken as `e`, and
no operand in it stands inside more than `budget` unary operators and parentheses. -/
inductive Derives : Nat → Nat → List Token → Expr → Prop
  | literal (budget : Nat) {t : Token} {v : Literal} (hliteral : isLiteral t = true)
      (hvalue : t.value = some v) : Derives budget 0 [t] (.literal v)
  | var (budget : Nat) {t u : Token} (hdollar : t.kind = .dollar) (hname : u.kind = .identifier) :
      Derives budget 0 [t, u] (.var u.raw t.pos)
  | unary {budget : Nat} {t : Token} {op : UnaryOp} {ts : List Token} {e : Expr}
      (hop : unaryAt? t = some op) (operand : Derives budget 0 ts e) :
      Derives (budget + 1) 0 (t :: ts) (.unary op e)
  | group {budget : Nat} {t u : Token} {ts : List Token} {e : Expr} (hopen : t.kind = .opening .round)
      (hclose : u.kind = .closing .round) (inner : Derives budget BinaryOp.unaryRank ts e) :
      Derives (budget + 1) 0 (t :: (ts ++ [u])) e
  | loosen {budget levels : Nat} {ts : List Token} {e : Expr} (h : Derives budget levels ts e) :
      Derives budget (levels + 1) ts e
  | binary {budget levels : Nat} {t : Token} {op : BinaryOp} {ts us : List Token} {l r : Expr}
      (hlevels : levels < BinaryOp.unaryRank) (hop : t.kind = .operator op)
      (hrank : op.rank = BinaryOp.unaryRank - (levels + 1)) (left : Derives budget (levels + 1) ts l)
      (right : Derives budget levels us r) (hdepth : (Expr.binary op l r).depth ≤ maxNesting) :
      Derives budget (levels + 1) (ts ++ t :: us) (.binary op l r)

theorem Derives.length_pos {budget levels : Nat} {ts : List Token} {e : Expr} (h : Derives budget levels ts e) :
    0 < ts.length := by
  induction h with
  | literal | var | unary | group => exact Nat.succ_pos _
  | loosen inner ih => exact ih
  | binary =>
    rw [List.length_append, List.length_cons]
    omega

/-- What is derived takes a token at least. -/
theorem shortens_of_takes {reader : LineReader Expr} {budget levels : Nat}
    (h : Takes reader (Derives budget levels)) : Shortens reader := by
  intro ts e rest hread
  obtain ⟨used, rfl, hderives⟩ := h hread
  have hpos := hderives.length_pos
  rw [List.length_append]
  omega

theorem operatorAt?_eq_some {rank : Nat} {t : Token} {op : BinaryOp} (h : operatorAt? rank t = some op) :
    t.kind = .operator op ∧ op.rank = rank := by
  unfold operatorAt? at h
  split at h
  · next hkind =>
    split at h
    · next hrank =>
      cases h
      exact ⟨hkind, hrank⟩
    · cases h
  · cases h

/-- A chain goes on from what has been taken as its left operand. -/
theorem chain_derives {stop : LineEnd} {operand : LineReader Expr} {budget levels : Nat}
    (hlevels : levels < BinaryOp.unaryRank) (hoperand : Takes operand (Derives budget levels))
    (steps : Nat) {start : List Token} {left : Expr} (hleft : Derives budget (levels + 1) start left) :
    Takes (chain stop (BinaryOp.unaryRank - (levels + 1)) operand steps left)
      fun used e => Derives budget (levels + 1) (start ++ used) e := by
  have hstop : Derives budget (levels + 1) (start ++ []) left := by rwa [List.append_nil]
  induction steps generalizing start left with
  | zero =>
    intro ts e rest h
    cases h
    exact ⟨[], rfl, hstop⟩
  | succ steps ih =>
    intro ts e rest h
    cases ts with
    | nil =>
      cases h
      exact ⟨[], rfl, hstop⟩
    | cons t ts =>
      rw [chain] at h
      split at h
      · cases h
        exact ⟨[], rfl, hstop⟩
      · next op hat =>
        obtain ⟨hop, hrank⟩ := operatorAt?_eq_some hat
        obtain ⟨⟨right, after⟩, hread, hok⟩ := bind_eq_ok.mp h
        obtain ⟨taken, rfl, hright⟩ := hoperand hread
        by_cases hdepth : maxNesting < (Expr.binary op left right).depth
        · simp only [hdepth, if_true] at hok
          cases hok
        · simp only [hdepth, if_false] at hok
          -- What has been read so far is the left operand of the rest of the chain.
          have hbinary := Derives.binary hlevels hop hrank hleft hright (Nat.not_lt.mp hdepth)
          obtain ⟨used, rfl, he⟩ := ih hbinary (by rwa [List.append_nil]) hok
          refine ⟨t :: (taken ++ used), by simp, ?_⟩
          simpa using he

/-- From atoms that are derived, the levels take what is derived. -/
theorem chains_derives_of {stop : LineEnd} {atom : LineReader Expr} {budget : Nat}
    (hatom : Takes atom (Derives budget 0)) {levels : Nat} (hlevels : levels ≤ BinaryOp.unaryRank) :
    Takes (chains stop atom levels) (Derives budget levels) := by
  induction levels with
  | zero => exact hatom
  | succ levels ih =>
    have ih := ih (Nat.le_of_succ_le hlevels)
    intro ts e rest h
    rw [chains] at h
    obtain ⟨⟨left, after⟩, hread, hok⟩ := bind_eq_ok.mp h
    obtain ⟨start, rfl, hleft⟩ := ih hread
    obtain ⟨used, rfl, he⟩ := chain_derives hlevels ih _ hleft.loosen hok
    exact ⟨start ++ used, (List.append_assoc _ _ _).symm, he⟩

/-- An atom within its budget, if the atoms inside it keep to theirs. -/
theorem atom_derives_of {stop : LineEnd} {budget : Nat}
    (ih : ∀ inner, budget = inner + 1 → Takes (atom stop inner) (Derives inner 0)) :
    Takes (atom stop budget) (Derives budget 0) := by
  intro ts e rest h
  cases ts with
  | nil => cases budget <;> cases h
  | cons t ts =>
    rw [atom.eq_def] at h
    -- An operator and a parenthesis take one of the budget for what they hold.
    cases hunary : unaryAt? t with
    | some op =>
      simp only [hunary] at h
      cases budget with
      | zero => cases h
      | succ inner =>
        obtain ⟨⟨operand, after⟩, hread, hok⟩ := bind_eq_ok.mp h
        obtain ⟨used, rfl, hoperand⟩ := ih inner rfl hread
        cases hok
        exact ⟨t :: used, rfl, .unary hunary hoperand⟩
    | none =>
      simp only [hunary] at h
      by_cases hdollar : t.kind = .dollar
      · rw [if_pos hdollar] at h
        obtain ⟨⟨name, after⟩, hread, hok⟩ := bind_eq_ok.mp h
        obtain ⟨u, hkind, rfl, rfl⟩ := LineEnd.expectName_eq_ok hread
        cases hok
        exact ⟨[t, u], rfl, .var budget hdollar hkind⟩
      rw [if_neg hdollar] at h
      by_cases hround : t.kind = .opening .round
      · rw [if_pos hround] at h
        cases budget with
        | zero => cases h
        | succ inner =>
          obtain ⟨⟨group, after⟩, hread, hrest⟩ := bind_eq_ok.mp h
          obtain ⟨⟨⟨⟩, after'⟩, hclose, hok⟩ := bind_eq_ok.mp hrest
          have hlayers : operation stop (atom stop inner) 0 = chains stop (atom stop inner) BinaryOp.unaryRank :=
            operation_eq_chains (shortens_of_takes (ih inner rfl)) (Nat.le_refl _)
          rw [hlayers] at hread
          obtain ⟨used, rfl, hgroup⟩ := chains_derives_of (ih inner rfl) (Nat.le_refl _) hread
          obtain ⟨u, hkind, rfl⟩ := LineEnd.expect_eq_ok hclose
          cases hok
          exact ⟨t :: (used ++ [u]), by simp, .group hround hkind hgroup⟩
      rw [if_neg hround] at h
      cases hvalue : t.value with
      | none =>
        rw [hvalue] at h
        cases h
      | some v =>
        rw [hvalue] at h
        by_cases hliteral : isLiteral t = true
        · simp only [hliteral, if_true] at h
          cases h
          exact ⟨[t], rfl, .literal budget hliteral hvalue⟩
        · simp only [hliteral, Bool.false_eq_true, if_false] at h
          cases h

theorem atom_derives (stop : LineEnd) (budget : Nat) : Takes (atom stop budget) (Derives budget 0) := by
  induction budget with
  | zero => exact atom_derives_of fun inner h => absurd h (Nat.succ_ne_zero inner).symm
  | succ budget ih =>
    refine atom_derives_of fun inner h => ?_
    rw [← Nat.succ.inj h]
    exact ih

/-- **An expression is read layer by layer,** whatever tokens are given. -/
theorem operation_atom (stop : LineEnd) (budget : Nat) :
    operation stop (atom stop budget) 0 = chains stop (atom stop budget) BinaryOp.unaryRank :=
  operation_eq_chains (shortens_of_takes (atom_derives stop budget)) (Nat.le_refl _)

theorem read_eq_chains (stop : LineEnd) : read stop = chains stop (atom stop maxNesting) BinaryOp.unaryRank :=
  operation_atom stop maxNesting

/-- **What the reader takes is derived,** whatever tokens it is given. -/
theorem read_derives (stop : LineEnd) : Takes (read stop) (Derives maxNesting BinaryOp.unaryRank) := by
  rw [read_eq_chains]
  exact chains_derives_of (atom_derives stop maxNesting) (Nat.le_refl _)

end Expr

end Gamebook
