/-
# Gamebook.Proofs.Grammar — expressions are read as the layered grammar says

On paper the expressions of a story script are a grammar of eight layers. A layer of binary operators is a
phrase of the next tighter layer, or a phrase of its own, an operator and a phrase of the next tighter
layer, so its operators associate to the left; below the binary operators stand the unary ones, and below
those literals, variables and what is in parentheses. `Expr.Derivation` is this grammar, with trees as its
derivations and no limits in it.

The reader knows no layers. It is one loop with a least rank (`Expr.climb`), and it takes some tokens as an
expression exactly if the grammar derives the expression from them, no operator follows that could carry the phrase
on, and two limits are kept: `maxNesting` unary operators and parentheses around an operand, and the height
`maxNesting` of every binary operation (`Expr.read_eq_ok_iff`). The loop reads a chain of operands for each rank
(`Expr.read_eq_chains`). So in one direction the result is `Expr.read_derives` and where the reader stops
(`chains_ends`); in the other, every phrase is read at its level (`Derives.reads`).
-/
import Gamebook.Proofs.Reading.Expr
import Gamebook.Proofs.Spelling.Read

namespace Gamebook.Expr

/-! ## The grammar -/

/-- The layers of the grammar, loosest first. -/
inductive Layer where
  | or
  | and
  | equality
  | relational
  | additive
  | multiplicative
  | unary
  | primary
  deriving DecidableEq

namespace Layer

/-- The next tighter layer. -/
def tighter? : Layer → Option Layer
  | or => some and
  | and => some equality
  | equality => some relational
  | relational => some additive
  | additive => some multiplicative
  | multiplicative => some unary
  | unary => some primary
  | primary => none

/-- The binary operators of a layer. -/
def operators : Layer → List BinaryOp
  | or => [.or]
  | and => [.and]
  | equality => [.eq, .ne]
  | relational => [.lt, .le, .gt, .ge]
  | additive => [.add, .sub]
  | multiplicative => [.mul, .div, .mod]
  | unary | primary => []

end Layer

/-- The derivations of an expression from tokens, in a layer. -/
inductive Derivation : Layer → List Token → Expr → Type
  | operand {layer tighter : Layer} {ts : List Token} {e : Expr} (htighter : layer.tighter? = some tighter)
      (inner : Derivation tighter ts e) : Derivation layer ts e
  | binary {layer tighter : Layer} {t : Token} {op : BinaryOp} {ts us : List Token} {l r : Expr}
      (htighter : layer.tighter? = some tighter) (hop : op ∈ layer.operators)
      (ht : t.kind = .operator op) (left : Derivation layer ts l) (right : Derivation tighter us r) :
      Derivation layer (ts ++ t :: us) (.binary op l r)
  | not {t : Token} {ts : List Token} {e : Expr} (ht : t.kind = .bang) (inner : Derivation .unary ts e) :
      Derivation .unary (t :: ts) (.unary .not e)
  | neg {t : Token} {ts : List Token} {e : Expr} (ht : t.kind = .operator .sub)
      (inner : Derivation .unary ts e) : Derivation .unary (t :: ts) (.unary .neg e)
  | literal {t : Token} {v : Literal}
      (ht : t.kind = .number ∨ t.kind = .string ∨ ∃ b, t.kind = .boolean b) (hvalue : t.value = some v) :
      Derivation .primary [t] (.literal v)
  | var {t u : Token} (ht : t.kind = .dollar) (hu : u.kind = .identifier) :
      Derivation .primary [t, u] (.var u.raw t.pos)
  | group {t u : Token} {ts : List Token} {e : Expr} (ht : t.kind = .opening .round)
      (hu : u.kind = .closing .round) (inner : Derivation .or ts e) :
      Derivation .primary (t :: (ts ++ [u])) e

/-- The largest number of unary operators and parentheses around an operand. -/
def Derivation.enclosures {layer : Layer} {ts : List Token} {e : Expr} : Derivation layer ts e → Nat
  | .operand _ inner => inner.enclosures
  | .binary _ _ _ left right => max left.enclosures right.enclosures
  | .not _ inner | .neg _ inner | .group _ _ inner => inner.enclosures + 1
  | .literal _ _ | .var _ _ => 0

/-! ## Layers and levels -/

namespace Layer

/-- How many ranks of binary operators a phrase of the layer may use. -/
def levels : Layer → Nat
  | or => 6
  | and => 5
  | equality => 4
  | relational => 3
  | additive => 2
  | multiplicative => 1
  | unary | primary => 0

theorem mem_operators_iff {layer : Layer} {op : BinaryOp} :
    op ∈ layer.operators ↔ op.rank + layer.levels = BinaryOp.unaryRank := by
  cases layer <;> cases op <;> decide

/-- Below a layer of binary operators lies one with a rank less. -/
theorem exists_tighter {layer : Layer} {n : Nat} (h : layer.levels = n + 1) :
    ∃ tighter, layer.tighter? = some tighter ∧ tighter.levels = n ∧ tighter ≠ .primary := by
  cases layer <;> cases h <;> exact ⟨_, rfl, rfl, by decide⟩

theorem eq_unary {layer : Layer} (h : layer.levels = 0) (hne : layer ≠ .primary) : layer = .unary := by
  cases layer with
  | unary => rfl
  | primary => exact absurd rfl hne
  | _ => cases h

theorem levels_of_tighter {layer tighter : Layer} (h : layer.tighter? = some tighter) :
    layer.levels = tighter.levels + 1 ∨ layer = .unary ∧ tighter = .primary := by
  cases layer <;> cases h <;> decide

end Layer

theorem isLiteral_iff {t : Token} :
    isLiteral t = true ↔ t.kind = .number ∨ t.kind = .string ∨ ∃ b, t.kind = .boolean b := by
  unfold isLiteral
  split <;> simp_all

theorem unaryAt?_eq_some {t : Token} {op : UnaryOp} (h : unaryAt? t = some op) :
    t.kind = .bang ∧ op = .not ∨ t.kind = .operator .sub ∧ op = .neg := by
  unfold unaryAt? at h
  split at h
  · next hkind => exact .inl ⟨hkind, (Option.some.inj h).symm⟩
  · next hkind => exact .inr ⟨hkind, (Option.some.inj h).symm⟩
  · cases h

section

variable {budget levels : Nat} {ts : List Token} {e : Expr}

/-- Counted down and level by level or not, the grammar is the same: what is derived within a budget has a
derivation that keeps to it. -/
theorem Derives.derivation (h : Derives budget levels ts e) {layer : Layer} (hlevels : layer.levels = levels)
    (hlayer : layer ≠ .primary) : ∃ d : Derivation layer ts e, d.enclosures ≤ budget := by
  induction h generalizing layer with
  | literal budget hliteral hvalue =>
    obtain rfl := Layer.eq_unary hlevels hlayer
    exact ⟨.operand rfl (.literal (isLiteral_iff.mp hliteral) hvalue), Nat.zero_le _⟩
  | var budget hdollar hname =>
    obtain rfl := Layer.eq_unary hlevels hlayer
    exact ⟨.operand rfl (.var hdollar hname), Nat.zero_le _⟩
  | unary hop operand ih =>
    obtain rfl := Layer.eq_unary hlevels hlayer
    obtain ⟨d, hd⟩ := ih rfl hlayer
    rcases unaryAt?_eq_some hop with ⟨ht, rfl⟩ | ⟨ht, rfl⟩
    · exact ⟨.not ht d, Nat.succ_le_succ hd⟩
    · exact ⟨.neg ht d, Nat.succ_le_succ hd⟩
  | group hopen hclose inner ih =>
    obtain rfl := Layer.eq_unary hlevels hlayer
    have hor : Layer.or.levels = BinaryOp.unaryRank := rfl
    obtain ⟨d, hd⟩ := ih hor Layer.noConfusion
    exact ⟨.operand rfl (.group hopen hclose d), Nat.succ_le_succ hd⟩
  | loosen h ih =>
    obtain ⟨tighter, htighter, hlevels, hne⟩ := Layer.exists_tighter hlevels
    obtain ⟨d, hd⟩ := ih hlevels hne
    exact ⟨.operand htighter d, hd⟩
  | @binary budget levels t op ts us l r hlt hop hrank left right hdepth ihl ihr =>
    obtain ⟨tighter, htighter, hinner, hne⟩ := Layer.exists_tighter hlevels
    obtain ⟨dl, hl⟩ := ihl hlevels hlayer
    obtain ⟨dr, hr⟩ := ihr hinner hne
    have hmem : op ∈ layer.operators := Layer.mem_operators_iff.mpr (by omega)
    exact ⟨.binary htighter hmem hop dl dr, Nat.max_le.mpr ⟨hl, hr⟩⟩

theorem Derives.isLow (h : Derives budget levels ts e) : e.isLow = true := by
  induction h with
  | literal | var => rfl
  | unary hop operand ih => exact ih
  | group hopen hclose inner ih | loosen inner ih => exact ih
  | binary hlevels hop hrank left right hdepth ihl ihr =>
    rw [Expr.isLow, ihl, ihr]
    simpa using hdepth

/-- A derivation that keeps to a budget and builds no high operation is one with the limits in it. -/
theorem Derivation.derives {layer : Layer} (d : Derivation layer ts e) (hd : d.enclosures ≤ budget)
    (hlow : e.isLow = true) : Derives budget layer.levels ts e := by
  induction d generalizing budget with
  | @operand layer tighter ts e htighter inner ih =>
    have hinner := ih hd hlow
    rcases Layer.levels_of_tighter htighter with hlevels | ⟨rfl, rfl⟩
    · rw [hlevels]
      exact hinner.loosen
    · exact hinner
  | @binary layer tighter t op ts us l r htighter hop ht left right ihl ihr =>
    rw [Expr.isLow, Bool.and_eq_true, Bool.and_eq_true, decide_eq_true_eq] at hlow
    obtain ⟨⟨hdepth, hl⟩, hr⟩ := hlow
    obtain ⟨hdl, hdr⟩ := Nat.max_le.mp hd
    have hrank := Layer.mem_operators_iff.mp hop
    have hlevels : layer.levels = tighter.levels + 1 := by
      rcases Layer.levels_of_tighter htighter with hlevels | ⟨rfl, -⟩
      · exact hlevels
      · cases hop
    have hleft := ihl hdl hl
    rw [hlevels] at hleft ⊢
    exact .binary (by omega) ht (by omega) hleft (ihr hdr hr) hdepth
  | not ht inner ih =>
    obtain ⟨rest, rfl⟩ : ∃ rest, budget = rest + 1 := ⟨budget - 1, by rw [enclosures] at hd; omega⟩
    exact .unary (by rw [unaryAt?, ht]) (ih (Nat.le_of_succ_le_succ hd) hlow)
  | neg ht inner ih =>
    obtain ⟨rest, rfl⟩ : ∃ rest, budget = rest + 1 := ⟨budget - 1, by rw [enclosures] at hd; omega⟩
    exact .unary (by rw [unaryAt?, ht]) (ih (Nat.le_of_succ_le_succ hd) hlow)
  | literal ht hvalue => exact .literal budget (isLiteral_iff.mpr ht) hvalue
  | var ht hu => exact .var budget ht hu
  | group ht hu inner ih =>
    obtain ⟨rest, rfl⟩ : ∃ rest, budget = rest + 1 := ⟨budget - 1, by rw [enclosures] at hd; omega⟩
    exact .group ht hu (ih (Nat.le_of_succ_le_succ hd) hlow)

/-! ## Every phrase is read -/

/-- What is derived at a level is read there. At a level of binary operators it may also be the beginning of
a longer chain, which is what the left operand of an operator is read as. -/
theorem Derives.reads (h : Derives budget levels ts e) :
    Reads budget levels ts e ∧ ∀ n, levels = n + 1 → Continues budget n ts e := by
  induction h with
  | literal budget hliteral hvalue => exact ⟨reads_literal budget hliteral hvalue, nofun⟩
  | var budget hdollar hname => exact ⟨reads_var budget hdollar hname, nofun⟩
  | unary hop operand ih => exact ⟨ih.1.unary hop, nofun⟩
  | group hopen hclose inner ih => exact ⟨ih.1.group hopen hclose, nofun⟩
  | loosen inner ih =>
    refine ⟨ih.1.continues.reads, fun n hn => ?_⟩
    cases hn
    exact ih.1.continues
  | binary hlevels hop hrank left right hdepth ihl ihr =>
    have hchain := (ihl.2 _ rfl).extend ihr.1 hlevels hrank hdepth hop
    refine ⟨hchain.reads, fun n hn => ?_⟩
    cases hn
    exact hchain

end

/-! ## Where the reader stops -/

/-- At a level the reader stops at no operator of its ranks. -/
theorem chains_ends {stop : LineEnd} {budget levels : Nat} (hlevels : levels ≤ BinaryOp.unaryRank)
    {ts : List Token} {e : Expr} {rest : List Token}
    (h : chains stop (atom stop budget) levels ts = .ok (e, rest)) :
    Ends (BinaryOp.unaryRank - levels) rest := by
  have hatom := shortens_of_takes (atom_derives stop budget)
  rw [← operation_eq_chains hatom hlevels] at h
  exact operation_ends hatom h

/-- **The loop over operators reads the layered grammar,** up to its limits. It takes a beginning `used` of
the tokens as `e` exactly if `used` derives `e` in the loosest layer, no binary operator follows, no operand
stands inside more than `maxNesting` unary operators and parentheses, and no binary operation in `e` is
higher than `maxNesting`. -/
theorem read_eq_ok_iff (stop : LineEnd) (ts : List Token) (e : Expr) (rest : List Token) :
    Expr.read stop ts = .ok (e, rest) ↔
      ∃ used, ts = used ++ rest ∧ (∃ d : Derivation .or used e, d.enclosures ≤ maxNesting) ∧
        e.isLow = true ∧ ∀ t ∈ rest.head?, ∀ op, t.kind ≠ .operator op := by
  constructor
  · intro h
    obtain ⟨used, hused, hderives⟩ := read_derives stop h
    rw [read_eq_chains] at h
    have hends := chains_ends (Nat.le_refl _) h
    refine ⟨used, hused, hderives.derivation rfl Layer.noConfusion, hderives.isLow, fun t ht op hop => ?_⟩
    exact absurd (hends t ht op hop) (Nat.not_lt.mpr (by rw [Nat.sub_self]; exact Nat.zero_le _))
  · rintro ⟨used, rfl, ⟨d, hd⟩, hlow, hnext⟩
    have hreads : Reads maxNesting BinaryOp.unaryRank used e := (d.derives hd hlow).reads.1
    rw [read_eq_chains]
    exact hreads stop rest fun t ht op hop => absurd hop (hnext t ht op)

end Gamebook.Expr
