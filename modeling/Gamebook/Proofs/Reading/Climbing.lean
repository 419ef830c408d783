/-
# Gamebook.Proofs.Reading.Climbing — one loop with a least rank reads all layers of operators

The loop of the reader takes operators of all ranks as they come and is told only which ones are too loose for it. On
paper each rank has a layer of its own: a chain of operands with operators of that rank between them, where the
operands are the chains of the next tighter rank (`Expr.chain`, `Expr.chains`).

Both read the same (`Expr.operation_eq_chains`). To go on with a least rank is to go on with the next tighter one first,
as far as that leads, and then with the chain of the rank itself (`Expr.climb_eq_bind`): when the operand of an operator
has been read, no tighter operator can follow it, so that the chain finds what the loop finds.
-/
import Gamebook.Expr.Read

namespace Gamebook

/-! ## Readers -/

/-- What follows after one reader has succeeded. -/
theorem bind_eq_ok {ε α β : Type} {x : Except ε α} {f : α → Except ε β} {b : β} :
    (x >>= f) = .ok b ↔ ∃ a, x = .ok a ∧ f a = .ok b := by
  cases x with
  | error e => simp [bind, Except.bind]
  | ok a => simp [bind, Except.bind]

namespace Expr

/-! ## Layers of operators -/

/-- The operator a token stands for, if its rank is `rank`. -/
def operatorAt? (rank : Nat) (t : Token) : Option BinaryOp :=
  match t.kind with
  | .operator op => if op.rank = rank then some op else none
  | _ => none

/-- Goes on with a chain of the given rank after `left`: as long as an operator of that rank follows,
takes it and an operand. An operation takes at least one token, so `steps` may be any bound on the
number of tokens left. -/
def chain (stop : LineEnd) (rank : Nat) (operand : LineReader Expr) :
    (steps : Nat) → (left : Expr) → LineReader Expr
  | steps + 1, left, t :: ts =>
    match operatorAt? rank t with
    | none => .ok (left, t :: ts)
    | some op => do
      let (right, rest) ← operand ts
      let e := binary op left right
      if maxNesting < e.depth then stop.fail rest .nestingTooDeep
      else chain stop rank operand steps e rest
  | _, left, ts => .ok (left, ts)

/-- Reads the chains of the `levels` tightest ranks over atoms. -/
def chains (stop : LineEnd) (atom : LineReader Expr) : (levels : Nat) → LineReader Expr
  | 0, ts => atom ts
  | levels + 1, ts => do
    let (left, rest) ← chains stop atom levels ts
    chain stop (BinaryOp.unaryRank - (levels + 1)) (chains stop atom levels) rest.length left rest

theorem operator?_eq_some {t : Token} {op : BinaryOp} (h : operator? t = some op) : t.kind = .operator op := by
  unfold operator? at h
  split at h
  · next hkind =>
    cases h
    exact hkind
  · cases h

theorem operator?_of_kind {t : Token} {op : BinaryOp} (h : t.kind = .operator op) : operator? t = some op := by
  rw [operator?, h]

theorem operatorAt?_eq (rank : Nat) (t : Token) :
    operatorAt? rank t = (operator? t).bind fun op => if op.rank = rank then some op else none := by
  unfold operatorAt? operator?
  cases t.kind <;> rfl

/-! ## One time around the loop -/

section

variable {stop : LineEnd} {atom : LineReader Expr} {least : Nat} {t : Token} {op : BinaryOp}

theorem climb_nil (steps : Nat) (left : Expr) : climb stop atom steps least left [] = .ok (left, []) := by
  cases steps <;> rfl

/-- The loop leaves at what is no operator, or one that is too loose for it. -/
theorem climb_leave (h : ∀ op, operator? t = some op → op.rank < least) (steps : Nat) (left : Expr)
    (ts : List Token) : climb stop atom steps least left (t :: ts) = .ok (left, t :: ts) := by
  cases steps with
  | zero => rfl
  | succ steps =>
    rw [climb]
    split
    · rfl
    · next op hop => rw [if_pos (h op hop)]

/-- At a token the loop leaves, or it takes an operator. -/
theorem leaves_or_takes (least : Nat) (t : Token) :
    (∀ op, operator? t = some op → op.rank < least) ∨ ∃ op, operator? t = some op ∧ least ≤ op.rank := by
  cases hop : operator? t with
  | none => exact .inl nofun
  | some op =>
    rcases Nat.lt_or_ge op.rank least with hlt | hge
    · refine .inl fun op' hop' => ?_
      cases hop'
      exact hlt
    · exact .inr ⟨op, rfl, hge⟩

theorem climb_take (hop : operator? t = some op) (hrank : least ≤ op.rank) (steps : Nat) (left : Expr)
    (ts : List Token) :
    climb stop atom (steps + 1) least left (t :: ts) = (do
      let (first, rest) ← atom ts
      let (right, rest) ← climb stop atom steps (op.rank + 1) first rest
      if maxNesting < (binary op left right).depth then stop.fail rest .nestingTooDeep
      else climb stop atom steps least (binary op left right) rest) := by
  rw [climb, hop]
  exact if_neg (Nat.not_lt.mpr hrank)

end

/-! ## Steps enough -/

/-- A reader takes at least one token. -/
def Shortens (reader : LineReader Expr) : Prop :=
  ∀ ⦃ts : List Token⦄ ⦃e : Expr⦄ ⦃rest : List Token⦄, reader ts = .ok (e, rest) → rest.length < ts.length

/-- Whether no operator of at least the given rank comes first. -/
def Ends (rank : Nat) (ts : List Token) : Prop :=
  ∀ t ∈ ts.head?, ∀ op, t.kind = .operator op → op.rank < rank

theorem Ends.mono {r r' : Nat} {ts : List Token} (h : Ends r ts) (hr : r ≤ r') : Ends r' ts :=
  fun t ht op hop => Nat.lt_of_lt_of_le (h t ht op hop) hr

theorem ends_nil (r : Nat) : Ends r [] := by
  intro t ht
  cases ht

theorem ends_cons {r : Nat} {t : Token} (h : ∀ op, t.kind = .operator op → op.rank < r)
    (ts : List Token) : Ends r (t :: ts) := by
  intro t' ht'
  cases ht'
  exact h

section

variable {stop : LineEnd} {atom : LineReader Expr} {steps steps' least : Nat} {left e : Expr}
  {ts rest : List Token}

/-- Where no operator follows that the loop may take, it leaves at once. -/
theorem climb_of_ends (h : Ends least ts) (steps : Nat) (left : Expr) :
    climb stop atom steps least left ts = .ok (left, ts) := by
  cases ts with
  | nil => exact climb_nil steps left
  | cons t ts => exact climb_leave (fun op hop => h t rfl op (operator?_eq_some hop)) steps left ts

variable (hatom : Shortens atom)
include hatom

theorem length_le_of_climb (h : climb stop atom steps least left ts = .ok (e, rest)) :
    rest.length ≤ ts.length := by
  induction steps generalizing least left ts e rest with
  | zero =>
    cases ts <;> cases h <;> exact Nat.le_refl _
  | succ steps ih =>
    cases ts with
    | nil =>
      cases h
      exact Nat.le_refl _
    | cons t ts =>
      rcases leaves_or_takes least t with hleave | ⟨op, hop, hrank⟩
      · rw [climb_leave hleave] at h
        cases h
        exact Nat.le_refl _
      · rw [climb_take hop hrank] at h
        obtain ⟨⟨first, more⟩, hfirst, h⟩ := bind_eq_ok.mp h
        obtain ⟨⟨right, after⟩, hright, h⟩ := bind_eq_ok.mp h
        dsimp only at hright h
        split at h
        · cases h
        · have hshorter := hatom hfirst
          have hle := ih hright
          have hle' := ih h
          rw [List.length_cons]
          omega

/-- More steps than tokens change nothing. -/
theorem climb_steps (h : ts.length ≤ steps) (h' : ts.length ≤ steps') (left : Expr) :
    climb stop atom steps least left ts = climb stop atom steps' least left ts := by
  induction steps generalizing steps' least left ts with
  | zero =>
    obtain rfl := List.eq_nil_of_length_eq_zero (Nat.le_zero.mp h)
    rw [climb_nil, climb_nil]
  | succ steps ih =>
    cases ts with
    | nil => rw [climb_nil, climb_nil]
    | cons t ts =>
      obtain ⟨steps', rfl⟩ := Nat.exists_eq_add_one_of_ne_zero (Nat.ne_zero_of_lt h')
      rw [List.length_cons] at h h'
      rcases leaves_or_takes least t with hleave | ⟨op, hop, hrank⟩
      · rw [climb_leave hleave, climb_leave hleave]
      · rw [climb_take hop hrank, climb_take hop hrank]
        cases hfirst : atom ts with
        | error e => rfl
        | ok p =>
          obtain ⟨first, more⟩ := p
          have hshorter := hatom hfirst
          have hmore : more.length ≤ steps' := by omega
          show (climb stop atom steps (op.rank + 1) first more >>= _)
            = (climb stop atom steps' (op.rank + 1) first more >>= _)
          rw [ih (by omega) hmore]
          cases hright : climb stop atom steps' (op.rank + 1) first more with
          | error e => rfl
          | ok q =>
            obtain ⟨right, after⟩ := q
            have hle := length_le_of_climb hatom hright
            show (if _ then _ else _) = (if _ then _ else _)
            split
            · rfl
            · exact ih (by omega) (by omega) _

/-- **The loop as it goes on without a bound:** the right operand of an operator is read like any other operand, with
the next tighter rank as the least one. -/
theorem climb_eq {t : Token} {op : BinaryOp} (hop : operator? t = some op) (hrank : least ≤ op.rank) (left : Expr) :
    climb stop atom (t :: ts).length least left (t :: ts) = (do
      let (right, rest) ← operation stop atom (op.rank + 1) ts
      if maxNesting < (binary op left right).depth then stop.fail rest .nestingTooDeep
      else climb stop atom rest.length least (binary op left right) rest) := by
  rw [List.length_cons, climb_take hop hrank, operation]
  cases hfirst : atom ts with
  | error e => rfl
  | ok p =>
    obtain ⟨first, more⟩ := p
    have hshorter := hatom hfirst
    show (climb stop atom ts.length (op.rank + 1) first more >>= _)
      = (climb stop atom more.length (op.rank + 1) first more >>= _)
    rw [climb_steps hatom (by omega) (Nat.le_refl more.length)]
    cases hright : climb stop atom more.length (op.rank + 1) first more with
    | error e => rfl
    | ok q =>
      obtain ⟨right, after⟩ := q
      have hle := length_le_of_climb hatom hright
      show (if _ then _ else _) = (if _ then _ else _)
      split
      · rfl
      · exact climb_steps hatom (by omega) (Nat.le_refl _) _

theorem operation_shortens : Shortens (operation stop atom least) := by
  intro ts e rest h
  obtain ⟨⟨first, more⟩, hfirst, h⟩ := bind_eq_ok.mp h
  exact Nat.lt_of_le_of_lt (length_le_of_climb hatom h) (hatom hfirst)

/-- The loop takes every operator that it may take. -/
theorem climb_ends (hsteps : ts.length ≤ steps) (h : climb stop atom steps least left ts = .ok (e, rest)) :
    Ends least rest := by
  induction steps generalizing left ts with
  | zero =>
    obtain rfl := List.eq_nil_of_length_eq_zero (Nat.le_zero.mp hsteps)
    cases h
    exact ends_nil least
  | succ steps ih =>
    cases ts with
    | nil =>
      cases h
      exact ends_nil least
    | cons t ts =>
      rcases leaves_or_takes least t with hleave | ⟨op, hop, hrank⟩
      · rw [climb_leave hleave] at h
        cases h
        exact ends_cons (fun op hop => hleave op (operator?_of_kind hop)) ts
      · rw [climb_take hop hrank] at h
        obtain ⟨⟨first, more⟩, hfirst, h⟩ := bind_eq_ok.mp h
        obtain ⟨⟨right, after⟩, hright, h⟩ := bind_eq_ok.mp h
        dsimp only at hright h
        split at h
        · cases h
        · have hshorter := hatom hfirst
          have hle := length_le_of_climb hatom hright
          rw [List.length_cons] at hsteps
          exact ih (by omega) h

theorem operation_ends (h : operation stop atom least ts = .ok (e, rest)) : Ends least rest := by
  obtain ⟨⟨first, more⟩, -, h⟩ := bind_eq_ok.mp h
  exact climb_ends hatom (Nat.le_refl _) h

end

/-! ## The loop reads the layers -/

section

variable {stop : LineEnd} {rank : Nat} {operand : LineReader Expr} {t : Token} {op : BinaryOp}

theorem chain_nil (steps : Nat) (left : Expr) : chain stop rank operand steps left [] = .ok (left, []) := by
  cases steps <;> rfl

theorem chain_leave (h : ∀ op, operator? t = some op → op.rank ≠ rank) (steps : Nat) (left : Expr)
    (ts : List Token) : chain stop rank operand steps left (t :: ts) = .ok (left, t :: ts) := by
  have hnone : operatorAt? rank t = none := by
    rw [operatorAt?_eq]
    cases hop : operator? t with
    | none => rfl
    | some op => exact if_neg (h op hop)
  cases steps with
  | zero => rfl
  | succ steps => rw [chain, hnone]

theorem chain_take (hop : operator? t = some op) (hrank : op.rank = rank) (steps : Nat) (left : Expr)
    (ts : List Token) :
    chain stop rank operand (steps + 1) left (t :: ts) = (do
      let (right, rest) ← operand ts
      if maxNesting < (binary op left right).depth then stop.fail rest .nestingTooDeep
      else chain stop rank operand steps (binary op left right) rest) := by
  have hsome : operatorAt? rank t = some op := by
    rw [operatorAt?_eq, hop]
    exact if_pos hrank
  rw [chain, hsome]

theorem chain_steps (hoperand : Shortens operand) {steps steps' : Nat} {ts : List Token} (h : ts.length ≤ steps)
    (h' : ts.length ≤ steps') (left : Expr) :
    chain stop rank operand steps left ts = chain stop rank operand steps' left ts := by
  induction steps generalizing steps' left ts with
  | zero =>
    obtain rfl := List.eq_nil_of_length_eq_zero (Nat.le_zero.mp h)
    rw [chain_nil, chain_nil]
  | succ steps ih =>
    cases ts with
    | nil => rw [chain_nil, chain_nil]
    | cons t ts =>
      obtain ⟨steps', rfl⟩ := Nat.exists_eq_add_one_of_ne_zero (Nat.ne_zero_of_lt h')
      rw [List.length_cons] at h h'
      by_cases htake : ∃ op, operator? t = some op ∧ op.rank = rank
      · obtain ⟨op, hop, hrank⟩ := htake
        rw [chain_take hop hrank, chain_take hop hrank]
        cases hright : operand ts with
        | error e => rfl
        | ok p =>
          obtain ⟨right, more⟩ := p
          have hshorter := hoperand hright
          show (if _ then _ else _) = (if _ then _ else _)
          split
          · rfl
          · exact ih (by omega) (by omega) _
      · have hleave : ∀ op, operator? t = some op → op.rank ≠ rank := fun op hop hrank => htake ⟨op, hop, hrank⟩
        rw [chain_leave hleave, chain_leave hleave]

end

section

variable {stop : LineEnd} {atom : LineReader Expr} (hatom : Shortens atom)

include hatom

/-- **A rank at a time.** Going on with a least rank is going on with the next tighter one, and then with the chain of
the rank itself. -/
theorem climb_eq_bind (rank : Nat) (left : Expr) (ts : List Token) :
    climb stop atom ts.length rank left ts = (do
      let (left, rest) ← climb stop atom ts.length (rank + 1) left ts
      chain stop rank (operation stop atom (rank + 1)) rest.length left rest) := by
  induction hlength : ts.length using Nat.strongRecOn generalizing left ts with
  | ind n ih =>
  subst hlength
  cases ts with
  | nil => rfl
  | cons t ts =>
    -- What follows an operand is shorter than the tokens after the operator.
    have hrest : ∀ {least : Nat} {right : Expr} {rest : List Token},
        operation stop atom least ts = .ok (right, rest) → rest.length < (t :: ts).length :=
      fun h => Nat.lt_succ_of_lt (operation_shortens hatom h)
    rcases leaves_or_takes (rank + 1) t with hloose | ⟨op, hop, hrank⟩
    · rw [climb_leave hloose]
      show _ = chain stop rank (operation stop atom (rank + 1)) (ts.length + 1) left (t :: ts)
      rcases leaves_or_takes rank t with hleave | ⟨op, hop, hrank⟩
      · rw [climb_leave hleave, chain_leave fun op hop => Nat.ne_of_lt (hleave op hop)]
      · -- An operator of the rank itself: its operand leaves no tighter one for the loop to take.
        have heq : op.rank = rank := Nat.le_antisymm (Nat.le_of_lt_succ (hloose op hop)) hrank
        rw [climb_eq hatom hop hrank, chain_take hop heq, heq]
        cases hright : operation stop atom (rank + 1) ts with
        | error e => rfl
        | ok p =>
          obtain ⟨right, rest⟩ := p
          show (if _ then _ else _) = (if _ then _ else _)
          split
          · rfl
          · rw [ih _ (hrest hright) _ rest rfl, climb_of_ends (operation_ends hatom hright)]
            exact chain_steps (operation_shortens hatom) (Nat.le_refl _)
              (Nat.le_of_lt (operation_shortens hatom hright)) _
    · -- A tighter operator is taken by both loops.
      rw [climb_eq hatom hop (Nat.le_of_succ_le hrank), climb_eq hatom hop hrank]
      cases hright : operation stop atom (op.rank + 1) ts with
      | error e => rfl
      | ok p =>
        obtain ⟨right, rest⟩ := p
        show (if _ then _ else _) = (if _ then _ else _) >>= _
        split
        · rfl
        · exact ih _ (hrest hright) _ rest rfl

theorem operation_eq_bind (rank : Nat) (ts : List Token) :
    operation stop atom rank ts = (do
      let (left, rest) ← operation stop atom (rank + 1) ts
      chain stop rank (operation stop atom (rank + 1)) rest.length left rest) := by
  rw [operation, operation]
  cases atom ts with
  | error e => rfl
  | ok p => exact climb_eq_bind hatom rank p.1 p.2

/-- **The loop with a least rank reads the layers of operators.** -/
theorem operation_eq_chains {levels : Nat} (hlevels : levels ≤ BinaryOp.unaryRank) :
    operation stop atom (BinaryOp.unaryRank - levels) = chains stop atom levels := by
  induction levels with
  | zero =>
    funext ts
    rw [chains, operation]
    cases atom ts with
    | error e => rfl
    | ok p => exact climb_of_ends (fun t _ op _ => op.rank_lt_unaryRank) _ p.1
  | succ levels ih =>
    have hrank : BinaryOp.unaryRank - (levels + 1) + 1 = BinaryOp.unaryRank - levels := by omega
    funext ts
    rw [operation_eq_bind hatom, hrank, ih (Nat.le_of_succ_le hlevels), chains]

end

end Expr

end Gamebook
