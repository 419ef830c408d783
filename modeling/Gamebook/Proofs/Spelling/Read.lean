/-
# Gamebook.Proofs.Spelling.Read — an expression is read back from its words

The reader goes down through the ranks of operators, so what it makes of some words depends on the level
at which it meets them. `Reads` says that at a level the words are read as an expression, whatever
follows that this level would not take for its own; `Continues` says the same of a chain that may still
go on. Words read at one level are read at every looser one (`Reads.mono`), and a chain goes on with an
operator and an operand (`Continues.extend`). With those an induction over the expression gives
`Expr.read_spelling`.

Only the words of atoms stand inside unary operators and parentheses: their number is the `nesting` of an
expression, which is what the budget of the reader has to cover.
-/
import Gamebook.Proofs.Reading.Expr
import Gamebook.Proofs.Spelling.Expr

namespace Gamebook.Expr

/-! ## Limits -/

/-- One more where parentheses are needed. -/
def enclosed (needed : Bool) (n : Nat) : Nat := if needed then n + 1 else n

/-- The largest number of unary operators and parentheses around a word. -/
def nesting : Expr → Nat
  | literal _ | var _ _ => 0
  | unary _ e => enclosed (e.rank < BinaryOp.unaryRank) e.nesting + 1
  | binary op l r =>
    max (enclosed (l.rank < op.rank) l.nesting) (enclosed (r.rank ≤ op.rank) r.nesting)

/-- Whether no binary operation is higher than the limit. -/
def isLow : Expr → Bool
  | literal _ | var _ _ => true
  | unary _ e => e.isLow
  | binary op l r => (binary op l r).depth ≤ maxNesting && l.isLow && r.isLow

/-- The limits of reading: what is read within them is read back. -/
def Fits (e : Expr) : Prop := e.isLow = true ∧ e.nesting ≤ maxNesting

/-- Parentheses cost no more than the operations they stand around are high. -/
theorem nesting_le_depth (e : Expr) :
    e.nesting ≤ e.depth ∧ (e.rank < BinaryOp.unaryRank → e.nesting < e.depth) := by
  have henclosed : ∀ {needed : Bool} {e : Expr}, (needed = true → e.rank < BinaryOp.unaryRank) →
      (e.nesting ≤ e.depth ∧ (e.rank < BinaryOp.unaryRank → e.nesting < e.depth)) →
      enclosed needed e.nesting ≤ e.depth := by
    intro needed e hneeded he
    cases needed with
    | false => exact he.1
    | true => exact he.2 (hneeded rfl)
  induction e with
  | literal v => exact ⟨Nat.zero_le _, fun h => absurd h (Nat.lt_irrefl _)⟩
  | var name pos => exact ⟨Nat.zero_le _, fun h => absurd h (Nat.lt_irrefl _)⟩
  | unary op e ih =>
    have he : enclosed (e.rank < BinaryOp.unaryRank) e.nesting ≤ e.depth :=
      henclosed of_decide_eq_true ih
    exact ⟨Nat.succ_le_succ he, fun h => absurd h (Nat.lt_irrefl _)⟩
  | binary op l r ihl ihr =>
    have hop := op.rank_lt_unaryRank
    have hl : enclosed (l.rank < op.rank) l.nesting ≤ l.depth :=
      henclosed (fun h => Nat.lt_trans (of_decide_eq_true h) hop) ihl
    have hr : enclosed (r.rank ≤ op.rank) r.nesting ≤ r.depth :=
      henclosed (fun h => Nat.lt_of_le_of_lt (of_decide_eq_true h) hop) ihr
    have hlt : (binary op l r).nesting < (binary op l r).depth := by
      rw [nesting, depth]
      omega
    exact ⟨Nat.le_of_lt hlt, fun _ => hlt⟩

theorem isLow_of_depth_le {e : Expr} (h : e.depth ≤ maxNesting) : e.isLow = true := by
  induction e with
  | literal v => rfl
  | var name pos => rfl
  | unary op e ih => exact ih (by rw [depth] at h; omega)
  | binary op l r ihl ihr =>
    have hdepth : (binary op l r).depth = max l.depth r.depth + 1 := rfl
    simp only [isLow, Bool.and_eq_true, decide_eq_true_eq]
    exact ⟨⟨h, ihl (by omega)⟩, ihr (by omega)⟩

/-- A tree within the limit is within the limits of reading. -/
theorem fits_of_depth_le {e : Expr} (h : e.depth ≤ maxNesting) : e.Fits :=
  ⟨isLow_of_depth_le h, Nat.le_trans (nesting_le_depth e).1 h⟩

/-! ## Reading at a level -/

/-- At a level, with a budget, the words `ts` are read as `e`. -/
def Reads (budget levels : Nat) (ts : List Token) (e : Expr) : Prop :=
  ∀ (stop : LineEnd) (rest : List Token), Ends (BinaryOp.unaryRank - levels) rest →
    chains stop (atom stop budget) levels (ts ++ rest) = .ok (e, rest)

/-- One level up, the words `ts` are read as the chain `e`, which goes on with what follows. -/
def Continues (budget levels : Nat) (ts : List Token) (e : Expr) : Prop :=
  ∀ (stop : LineEnd) (rest : List Token), Ends (BinaryOp.unaryRank - levels) rest →
    ∃ steps, rest.length ≤ steps ∧
      chains stop (atom stop budget) (levels + 1) (ts ++ rest)
        = chain stop (BinaryOp.unaryRank - (levels + 1)) (chains stop (atom stop budget) levels) steps
          e rest

variable {budget levels : Nat} {ts : List Token} {e : Expr}

theorem Reads.continues (h : Reads budget levels ts e) : Continues budget levels ts e := by
  intro stop rest hrest
  refine ⟨rest.length, Nat.le_refl _, ?_⟩
  rw [chains, h stop rest hrest]
  rfl

/-- A chain ends where no operator of its rank follows. -/
theorem chain_of_ends {stop : LineEnd} {rank : Nat} {operand : LineReader Expr} {rest : List Token}
    (h : Ends rank rest) (steps : Nat) (left : Expr) :
    chain stop rank operand steps left rest = .ok (left, rest) := by
  cases rest with
  | nil => exact chain_nil steps left
  | cons t rest =>
    exact chain_leave (fun op hop => Nat.ne_of_lt (h t rfl op (operator?_eq_some hop))) steps left rest

theorem Continues.reads (h : Continues budget levels ts e) : Reads budget (levels + 1) ts e := by
  intro stop rest hrest
  obtain ⟨steps, -, hchain⟩ := h stop rest (hrest.mono (by omega))
  rw [hchain, chain_of_ends hrest]

/-- What is read at a level is read at every level above it. -/
theorem Reads.mono (h : Reads budget levels ts e) {levels' : Nat} (hle : levels ≤ levels') :
    Reads budget levels' ts e := by
  induction hle with
  | refl => exact h
  | step _ ih => exact ih.continues.reads

/-- A chain goes on with an operator of its rank and an operand. -/
theorem Continues.extend {l r : Expr} {ls rs : List Token} {op : BinaryOp}
    (hl : Continues budget levels ls l) (hr : Reads budget levels rs r)
    (hlevels : levels < BinaryOp.unaryRank) (hop : op.rank = BinaryOp.unaryRank - (levels + 1))
    (hdepth : (binary op l r).depth ≤ maxNesting) {t : Token} (ht : t.kind = .operator op) :
    Continues budget levels (ls ++ t :: rs) (binary op l r) := by
  intro stop rest hrest
  -- The operator is too loose to belong to the last operand of the chain so far.
  have hends : Ends (BinaryOp.unaryRank - levels) (t :: (rs ++ rest)) := by
    refine ends_cons ?_ _
    intro op' hop'
    rw [ht] at hop'
    cases hop'
    omega
  obtain ⟨steps, hsteps, hchain⟩ := hl stop _ hends
  rw [List.length_cons, List.length_append] at hsteps
  cases steps with
  | zero => omega
  | succ steps =>
    refine ⟨steps, by omega, ?_⟩
    rw [List.append_assoc, List.cons_append, hchain, chain_take (operator?_of_kind ht) hop]
    simp only [hr stop rest hrest, bind, Except.bind]
    rw [if_neg (by omega)]

/-! ## Atoms -/

theorem reads_literal (budget : Nat) {t : Token} {v : Literal} (hliteral : isLiteral t = true)
    (hvalue : t.value = some v) : Reads budget 0 [t] (literal v) := by
  intro stop rest _
  have hplain : unaryAt? t = none ∧ t.kind ≠ .dollar ∧ t.kind ≠ .opening .round := by
    unfold isLiteral at hliteral
    split at hliteral
    · next hkind => simp [unaryAt?, hkind]
    · next hkind => simp [unaryAt?, hkind]
    · next hkind => simp [unaryAt?, hkind]
    · cases hliteral
  obtain ⟨hunary, hdollar, hround⟩ := hplain
  rw [chains, List.singleton_append, atom.eq_def]
  simp only [hunary, hdollar, hround, hvalue, hliteral, if_true, if_false]

theorem reads_var (budget : Nat) {t u : Token} (hdollar : t.kind = .dollar) (hname : u.kind = .identifier) :
    Reads budget 0 [t, u] (var u.raw t.pos) := by
  intro stop rest _
  have hunary : unaryAt? t = none := by rw [unaryAt?, hdollar]
  rw [chains, List.cons_append, List.singleton_append, atom.eq_def]
  simp only [hunary, hdollar, if_true, LineEnd.expectName, hname, bind, Except.bind]
  rfl

/-- A unary operator in front of an atom makes an atom. -/
theorem Reads.unary (h : Reads budget 0 ts e) {t : Token} {op : UnaryOp} (hop : unaryAt? t = some op) :
    Reads (budget + 1) 0 (t :: ts) (.unary op e) := by
  intro stop rest _
  have hatom := h stop rest fun t ht op' _ => op'.rank_lt_unaryRank
  rw [chains] at hatom ⊢
  rw [List.cons_append, atom, hop]
  simp only [hatom, bind, Except.bind]
  rfl

/-- An expression in parentheses is an atom. -/
theorem Reads.group (h : Reads budget BinaryOp.unaryRank ts e) {t u : Token}
    (hopen : t.kind = .opening .round) (hclose : u.kind = .closing .round) :
    Reads (budget + 1) 0 (t :: (ts ++ [u])) e := by
  intro stop rest _
  have hends : Ends 0 (u :: rest) := by
    refine ends_cons (fun op hop => ?_) rest
    rw [hclose] at hop
    cases hop
  have hinside := h stop _ hends
  have hunary : unaryAt? t = none := by rw [unaryAt?, hopen]
  rw [List.cons_append, List.append_assoc, List.singleton_append, chains, atom, hunary]
  simp only [hopen, if_true, operation_atom, hinside, LineEnd.expect, hclose, bind, Except.bind]
  rfl

/-! ## Words of an expression -/

/-- An expression is read back at every level at which its text needs no parentheses. -/
def ReadPlain (e : Expr) : Prop :=
  ∀ {budget levels}, e.nesting ≤ budget → levels ≤ BinaryOp.unaryRank →
    BinaryOp.unaryRank - levels ≤ e.rank → Reads budget levels e.spelling (e.relocate .erase)

/-- An expression is read back at every level, with parentheses where it needs them. -/
theorem ReadPlain.operand {e : Expr} (h : e.ReadPlain) {needed : Bool}
    (hneeded : needed = decide (e.rank < BinaryOp.unaryRank - levels))
    (hlevels : levels ≤ BinaryOp.unaryRank) (hbudget : enclosed needed e.nesting ≤ budget) :
    Reads budget levels (bracketed needed e.spelling) (e.relocate .erase) := by
  cases needed with
  | false => exact h hbudget hlevels (by simpa using hneeded.symm)
  | true =>
    have hbudget : e.nesting + 1 ≤ budget := hbudget
    obtain ⟨inner, rfl⟩ : ∃ inner, budget = inner + 1 := ⟨budget - 1, by omega⟩
    have hinside : Reads inner BinaryOp.unaryRank e.spelling (e.relocate .erase) :=
      h (by omega) (Nat.le_refl _) (by omega)
    exact (hinside.group rfl rfl).mono (Nat.zero_le levels)

/-- An expression is read back as a chain of every rank, with parentheses where it needs them. -/
def ReadChained (e : Expr) : Prop :=
  ∀ {budget levels : Nat} {needed : Bool}, levels < BinaryOp.unaryRank →
    needed = decide (e.rank < BinaryOp.unaryRank - (levels + 1)) → enclosed needed e.nesting ≤ budget →
    Continues budget levels (bracketed needed e.spelling) (e.relocate .erase)

/-- Only an expression of the rank itself is more than the first operand of a chain. -/
theorem ReadPlain.chained {e : Expr} (h : e.ReadPlain) {needed : Bool}
    (hlevels : levels < BinaryOp.unaryRank) (hrank : e.rank ≠ BinaryOp.unaryRank - (levels + 1))
    (hneeded : needed = decide (e.rank < BinaryOp.unaryRank - (levels + 1)))
    (hbudget : enclosed needed e.nesting ≤ budget) :
    Continues budget levels (bracketed needed e.spelling) (e.relocate .erase) := by
  refine (h.operand ?_ (Nat.le_of_lt hlevels) hbudget).continues
  rw [hneeded]
  exact decide_eq_decide.mpr (by omega)

theorem readChained_of_atom {e : Expr} (h : e.ReadPlain) (hrank : e.rank = BinaryOp.unaryRank) :
    e.ReadChained := by
  intro budget levels needed hlevels hneeded hbudget
  exact h.chained hlevels (by omega) hneeded hbudget

/-- What is read as an atom is read at every level. -/
theorem readPlain_of_atom {e : Expr}
    (h : ∀ {budget}, e.nesting ≤ budget → Reads budget 0 e.spelling (e.relocate .erase)) :
    e.ReadPlain := by
  intro budget levels hbudget _ _
  exact (h hbudget).mono (Nat.zero_le levels)

theorem readPlain_unary {op : UnaryOp} {e : Expr} (h : e.ReadPlain) : (unary op e).ReadPlain := by
  refine readPlain_of_atom ?_
  intro budget hbudget
  obtain ⟨inner, rfl⟩ : ∃ inner, budget = inner + 1 :=
    ⟨budget - 1, by rw [nesting] at hbudget; omega⟩
  have hoperand : Reads inner 0 (bracketed (e.rank < BinaryOp.unaryRank) e.spelling)
      (e.relocate .erase) :=
    h.operand rfl (Nat.zero_le _) (by rw [nesting] at hbudget; omega)
  exact hoperand.unary (by cases op <;> rfl)

/-- The chain that a binary operation is the end of. -/
theorem continues_binary {op : BinaryOp} {l r : Expr} (hl : l.ReadChained) (hr : r.ReadPlain)
    (hdepth : (binary op l r).depth ≤ maxNesting) (hlevels : levels < BinaryOp.unaryRank)
    (hrank : op.rank = BinaryOp.unaryRank - (levels + 1))
    (hbudget : (binary op l r).nesting ≤ budget) :
    Continues budget levels (binary op l r).spelling ((binary op l r).relocate .erase) := by
  rw [nesting] at hbudget
  have hleft : Continues budget levels (bracketed (l.rank < op.rank) l.spelling) (l.relocate .erase) :=
    hl hlevels (by rw [hrank]) (by omega)
  have hright : Reads budget levels (bracketed (r.rank ≤ op.rank) r.spelling) (r.relocate .erase) :=
    hr.operand (decide_eq_decide.mpr (by omega)) (Nat.le_of_lt hlevels) (by omega)
  rw [← depth_relocate .erase] at hdepth
  exact hleft.extend hright hlevels hrank hdepth rfl

/-- Every expression that is not too high is read back. -/
theorem readBack {e : Expr} (h : e.isLow = true) : e.ReadPlain ∧ e.ReadChained := by
  induction e with
  | literal v =>
    have hplain : (literal v).ReadPlain := by
      refine readPlain_of_atom ?_
      intro budget _
      exact reads_literal budget (by cases v <;> rfl) rfl
    exact ⟨hplain, readChained_of_atom hplain rfl⟩
  | var name pos =>
    have hplain : (var name pos).ReadPlain := by
      refine readPlain_of_atom ?_
      intro budget _
      have hraw : (Token.word .identifier name.toList).raw = name := String.ofList_toList
      have hread := reads_var budget (t := .word .dollar ['$']) (u := .word .identifier name.toList) rfl rfl
      rw [hraw] at hread
      exact hread
    exact ⟨hplain, readChained_of_atom hplain rfl⟩
  | unary op e ih =>
    have hplain : (unary op e).ReadPlain := readPlain_unary (ih h).1
    exact ⟨hplain, readChained_of_atom hplain rfl⟩
  | binary op l r ihl ihr =>
    simp only [isLow, Bool.and_eq_true, decide_eq_true_eq] at h
    obtain ⟨⟨hdepth, hl⟩, hr⟩ := h
    have hop := op.rank_lt_unaryRank
    have hchain : ∀ {budget levels}, levels < BinaryOp.unaryRank →
        op.rank = BinaryOp.unaryRank - (levels + 1) → (binary op l r).nesting ≤ budget →
        Continues budget levels (binary op l r).spelling ((binary op l r).relocate .erase) :=
      fun hlevels hrank => continues_binary (ihl hl).2 (ihr hr).1 hdepth hlevels hrank
    -- The operation ends a chain of its own rank, and chains of a rank are read at every looser level.
    have hplain : (binary op l r).ReadPlain := by
      intro budget levels hbudget hlevels hrank
      have hrank : BinaryOp.unaryRank - levels ≤ op.rank := hrank
      have hown : Continues budget (BinaryOp.unaryRank - (op.rank + 1)) _ _ :=
        hchain (by omega) (by omega) hbudget
      exact hown.reads.mono (by omega)
    refine ⟨hplain, ?_⟩
    intro budget levels needed hlevels hneeded hbudget
    -- At the left of an operator of its rank it goes on with the chain; elsewhere it is one operand.
    by_cases hrank : op.rank = BinaryOp.unaryRank - (levels + 1)
    · have hnot : needed = false := by
        rw [hneeded, decide_eq_false_iff_not]
        show ¬ op.rank < _
        omega
      subst hnot
      exact hchain hlevels hrank hbudget
    · exact hplain.chained hlevels hrank hneeded hbudget

/-- **An expression is read back from its words.** -/
theorem read_spelling {e : Expr} (h : e.Fits) (stop : LineEnd) {rest : List Token}
    (hrest : Ends 0 rest) : Expr.read stop (e.spelling ++ rest) = .ok (e.relocate .erase, rest) := by
  rw [read_eq_chains]
  exact (readBack h.1).1 h.2 (Nat.le_refl _) (Nat.zero_le _) stop rest hrest

end Gamebook.Expr
