/-
# Gamebook.Proofs.Reading.Place — where a reader stops

A reader goes over the tokens of its line from left to right. When it succeeds it leaves the end of them,
and when it fails, its error stands at the token it has come to, or at the end of the line if none is left.
`LineEnd.Leaves` says both of an outcome, and readers in sequence keep it (`LineEnd.Leaves.bind`). So every
reader of an expression, a statement, an entry or a header has its errors on its own line.
-/
import Gamebook.Story.Read

namespace Gamebook

namespace LineEnd

/-- The error stands at one of the tokens, or at the end of the line. -/
def Locates (stop : LineEnd) (ts : List Token) (e : SyntaxError) : Prop :=
  ∃ rest, rest <:+ ts ∧ e.pos = stop.here rest

/-- An error, if it is one, on the line. -/
def Holds {α : Type} (stop : LineEnd) (ts : List Token) : Except SyntaxError α → Prop
  | .error e => stop.Locates ts e
  | .ok _ => True

/-- An error on the line, or a value and the end of the tokens. -/
def Leaves {α : Type} (stop : LineEnd) (ts : List Token) : Except SyntaxError (α × List Token) → Prop
  | .error e => stop.Locates ts e
  | .ok (_, rest) => rest <:+ ts

variable {α β : Type} {stop : LineEnd} {ts us : List Token}

theorem Locates.mono {e : SyntaxError} (h : stop.Locates ts e) (hts : ts <:+ us) : stop.Locates us e := by
  obtain ⟨rest, hrest, hpos⟩ := h
  exact ⟨rest, hrest.trans hts, hpos⟩

theorem Holds.locates {r : Except SyntaxError α} (h : stop.Holds ts r) {e : SyntaxError} (he : r = .error e) :
    stop.Locates ts e := by
  rwa [he] at h

/-- An error on the line stands where a token does, or where the line ends. -/
theorem Locates.pos_eq {e : SyntaxError} (h : stop.Locates ts e) :
    (∃ t ∈ ts, t.pos = e.pos) ∨ e.pos = stop.pos := by
  obtain ⟨rest, hrest, hpos⟩ := h
  cases rest with
  | nil => exact .inr hpos
  | cons t rest => exact .inl ⟨t, hrest.subset List.mem_cons_self, hpos.symm⟩

theorem Holds.mono {r : Except SyntaxError α} (h : stop.Holds ts r) (hts : ts <:+ us) : stop.Holds us r := by
  cases r with
  | error e => exact Locates.mono h hts
  | ok v => trivial

theorem Leaves.mono {r : Except SyntaxError (α × List Token)} (h : stop.Leaves ts r) (hts : ts <:+ us) :
    stop.Leaves us r := by
  cases r with
  | error e => exact Locates.mono h hts
  | ok v => exact List.IsSuffix.trans h hts

/-- What follows a reader stands further on. -/
theorem Leaves.bind {x : Except SyntaxError (α × List Token)}
    {k : α × List Token → Except SyntaxError (β × List Token)} (hx : stop.Leaves ts x)
    (hk : ∀ v rest, stop.Leaves rest (k (v, rest))) : stop.Leaves ts (x >>= k) := by
  cases x with
  | error e => exact hx
  | ok v => exact (hk v.1 v.2).mono hx

/-- A reader that needs the line to its end stands last. -/
theorem Leaves.last {x : Except SyntaxError (α × List Token)} {k : α × List Token → Except SyntaxError β}
    (hx : stop.Leaves ts x) (hk : ∀ v rest, stop.Holds rest (k (v, rest))) : stop.Holds ts (x >>= k) := by
  cases x with
  | error e => exact hx
  | ok v => exact (hk v.1 v.2).mono hx

theorem Holds.map {x : Except SyntaxError α} (hx : stop.Holds ts x) (f : α → β) :
    stop.Holds ts (x >>= fun v => .ok (f v)) := by
  cases x with
  | error e => exact hx
  | ok v => trivial

/-! ## Tokens -/

theorem locates_here (ts : List Token) (fault : SyntaxFault) : stop.Locates ts ⟨fault, stop.here ts⟩ :=
  ⟨ts, List.suffix_rfl, rfl⟩

theorem holds_expectEnd (ts : List Token) : stop.Holds ts (stop.expectEnd ts) := by
  cases ts with
  | nil => trivial
  | cons t ts => exact locates_here _ _

theorem leaves_expect (kind : TokenKind) (what : Expectation) (ts : List Token) :
    stop.Leaves ts (stop.expect kind what ts) := by
  cases ts with
  | nil => exact locates_here _ _
  | cons t ts =>
    rw [expect]
    split
    · exact List.suffix_cons t ts
    · exact locates_here _ _

theorem leaves_expectName (fault : Option String → SyntaxFault) (ts : List Token) :
    stop.Leaves ts (stop.expectName fault ts) := by
  cases ts with
  | nil => exact locates_here _ _
  | cons t ts =>
    rw [expectName]
    split
    · exact List.suffix_cons t ts
    · exact locates_here _ _

end LineEnd

/-! ## Expressions -/

namespace Expr

open LineEnd

variable {stop : LineEnd}

theorem leaves_climb {atom : LineReader Expr} (hatom : ∀ ts, stop.Leaves ts (atom ts)) (steps least : Nat)
    (left : Expr) (ts : List Token) : stop.Leaves ts (climb stop atom steps least left ts) := by
  induction steps generalizing least left ts with
  | zero => exact List.suffix_rfl
  | succ steps ih =>
    cases ts with
    | nil => exact List.suffix_rfl
    | cons t ts =>
      rw [climb]
      split
      · exact List.suffix_rfl
      split
      · exact List.suffix_rfl
      refine ((hatom ts).bind fun first more => ?_).mono (List.suffix_cons t ts)
      refine (ih _ first more).bind fun right rest => ?_
      show stop.Leaves rest (if _ then _ else _)
      split
      · exact locates_here _ _
      · exact ih _ _ rest

theorem leaves_operation {atom : LineReader Expr} (hatom : ∀ ts, stop.Leaves ts (atom ts)) (least : Nat)
    (ts : List Token) : stop.Leaves ts (operation stop atom least ts) :=
  (hatom ts).bind fun first rest => leaves_climb hatom rest.length least first rest

/-- An atom, if the atoms inside it keep to the line. -/
theorem leaves_atom_of {budget : Nat}
    (ih : ∀ inner, budget = inner + 1 → ∀ ts, stop.Leaves ts (atom stop inner ts)) (ts : List Token) :
    stop.Leaves ts (atom stop budget ts) := by
  cases ts with
  | nil =>
    rw [atom.eq_def]
    exact locates_here _ _
  | cons t ts =>
    have hts : ts <:+ t :: ts := List.suffix_cons t ts
    rw [atom.eq_def]
    cases hunary : unaryAt? t with
    | some op =>
      simp only [hunary]
      cases budget with
      | zero => exact (locates_here ts _).mono hts
      | succ inner =>
        refine Leaves.mono ((ih inner rfl ts).bind fun e rest => ?_) hts
        exact List.suffix_rfl
    | none =>
      simp only [hunary]
      by_cases hdollar : t.kind = .dollar
      · rw [if_pos hdollar]
        refine Leaves.mono ((leaves_expectName _ ts).bind fun name rest => ?_) hts
        exact List.suffix_rfl
      rw [if_neg hdollar]
      by_cases hround : t.kind = .opening .round
      · rw [if_pos hround]
        cases budget with
        | zero => exact (locates_here ts _).mono hts
        | succ inner =>
          refine Leaves.mono ((leaves_operation (ih inner rfl) _ ts).bind fun e rest => ?_) hts
          refine (leaves_expect _ _ rest).bind fun _ after => ?_
          exact List.suffix_rfl
      rw [if_neg hround]
      cases t.value with
      | none => exact locates_here _ _
      | some v =>
        show stop.Leaves (t :: ts) (if _ then _ else _)
        split
        · exact hts
        · exact locates_here _ _

theorem leaves_atom (budget : Nat) (ts : List Token) : stop.Leaves ts (atom stop budget ts) := by
  induction budget generalizing ts with
  | zero => exact leaves_atom_of (fun inner h => absurd h (Nat.succ_ne_zero inner).symm) ts
  | succ budget ih =>
    refine leaves_atom_of (fun inner h => ?_) ts
    rw [← Nat.succ.inj h]
    exact ih

theorem leaves_read (ts : List Token) : stop.Leaves ts (Expr.read stop ts) :=
  leaves_operation (leaves_atom maxNesting) 0 ts

end Expr

/-! ## Statements -/

section

open LineEnd

variable {stop : LineEnd}

theorem Choice.leaves_readGuard (ts : List Token) : stop.Leaves ts (Choice.readGuard stop ts) := by
  cases ts with
  | nil => exact List.suffix_rfl
  | cons t ts =>
    rw [Choice.readGuard]
    split
    · refine Leaves.mono ((Expr.leaves_read ts).bind fun guard rest => ?_) (List.suffix_cons t ts)
      refine (leaves_expect _ _ rest).bind fun _ after => ?_
      exact List.suffix_rfl
    · exact List.suffix_rfl

theorem Choice.suffix_takeText (ts : List Token) : (Choice.readText.takeText ts).2 <:+ ts := by
  cases ts with
  | nil => exact List.suffix_rfl
  | cons t ts =>
    rw [Choice.readText.takeText]
    split
    · exact List.suffix_cons t ts
    · exact List.suffix_rfl

theorem Choice.leaves_readText (ts : List Token) : stop.Leaves ts (Choice.readText stop ts) := by
  rw [Choice.readText]
  refine (leaves_expect _ _ ts).bind fun _ rest => ?_
  refine Leaves.mono ((leaves_expect _ _ _).bind fun _ after => ?_) (Choice.suffix_takeText rest)
  exact List.suffix_rfl

theorem Choice.leaves_readTarget (ts : List Token) : stop.Leaves ts (Choice.readTarget stop ts) := by
  cases ts with
  | nil => exact List.suffix_rfl
  | cons t ts =>
    rw [Choice.readTarget]
    split
    · refine Leaves.mono ((leaves_expectName _ ts).bind fun target rest => ?_) (List.suffix_cons t ts)
      exact List.suffix_rfl
    · exact List.suffix_rfl

theorem Choice.holds_read (pos : Position) (ts : List Token) : stop.Holds ts (Choice.read stop pos ts) :=
  (Choice.leaves_readGuard ts).last fun _ rest => (Choice.leaves_readText rest).last fun _ rest =>
    (Choice.leaves_readTarget rest).last fun _ rest => (holds_expectEnd rest).map _

theorem Assignment.leaves_readOp (ts : List Token) : stop.Leaves ts (Assignment.readOp stop ts) := by
  cases ts with
  | nil => exact locates_here _ _
  | cons t ts =>
    rw [Assignment.readOp]
    split
    · exact List.suffix_cons t ts
    · exact locates_here _ _

theorem Assignment.holds_read (pos : Position) (ts : List Token) :
    stop.Holds ts (Assignment.read stop pos ts) :=
  (leaves_expectName _ ts).last fun _ rest => (Assignment.leaves_readOp rest).last fun _ rest =>
    (Expr.leaves_read rest).last fun _ rest => (holds_expectEnd rest).map _

theorem Node.holds_readCondition (ts : List Token) : stop.Holds ts (Node.readCondition stop ts) :=
  (Expr.leaves_read ts).last fun _ rest => (leaves_expect _ _ rest).last fun _ rest =>
    (holds_expectEnd rest).map _

theorem Node.holds_readDivert (pos : Position) (ts : List Token) :
    stop.Holds ts (Node.readDivert stop pos ts) :=
  (leaves_expectName _ ts).last fun _ rest => (holds_expectEnd rest).map _

/-- **A statement that cannot be read fails on its line.** -/
theorem Node.holds_read (t : Token) (ts : List Token) : stop.Holds (t :: ts) (Node.read stop t ts) := by
  have hts : ts <:+ t :: ts := List.suffix_cons t ts
  rw [Node.read]
  split
  · exact ((holds_expectEnd ts).map _).mono hts
  · exact ((holds_expectEnd ts).map _).mono hts
  · exact ((Assignment.holds_read t.pos ts).map _).mono hts
  · exact ((Choice.holds_read t.pos ts).map _).mono hts
  · exact (Node.holds_readDivert t.pos ts).mono hts
  · exact locates_here _ _
  · exact locates_here _ _

theorem Preamble.holds_readEntry (t : Token) (ts : List Token) :
    stop.Holds (t :: ts) (Preamble.readEntry stop t ts) := by
  by_cases hkey : t.content = ""
  · rw [Preamble.readEntry.eq_def, if_pos hkey]
    exact locates_here _ _
  · rw [Preamble.readEntry.eq_def, if_neg hkey]
    cases ts with
    | nil => trivial
    | cons v rest =>
      show stop.Holds (t :: v :: rest) (if _ then _ else _)
      split
      · exact ((holds_expectEnd rest).map _).mono ⟨[t, v], rfl⟩
      · exact (locates_here (v :: rest) _).mono (List.suffix_cons t _)

theorem Header.holds_readTags (ts : List Token) : stop.Holds ts (Header.readTags stop ts).2 := by
  cases ts with
  | nil => trivial
  | cons t ts =>
    rw [Header.readTags]
    split
    · have hrest : ts.dropWhile (fun w => w.kind = .identifier) <:+ t :: ts :=
        (List.dropWhile_suffix _).trans (List.suffix_cons t ts)
      exact ((leaves_expect _ _ _).last fun _ rest => holds_expectEnd rest).mono hrest
    · exact holds_expectEnd (t :: ts)

end

end Gamebook
