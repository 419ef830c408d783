/-
# Gamebook.Proofs.Loop.Statement — reading statements from a cursor

Expressions, statements and metadata entries are read here from a cursor, step by step as they are read from a line.
Each of these readers stays on its line and gives what the line gives, with an error at the same place and with the
same words (`Cursor.finishes_statement`, `Cursor.finishes_condition`, `Cursor.finishes_entry`).
-/
import Gamebook.Proofs.Loop.Cursor

namespace Gamebook.Cursor

/-! ## Readers -/

section

variable (ending : Position)

/-- Goes on after `left`, as `Expr.climb` does. -/
def climb (atom : Cursor Expr) : (steps least : Nat) → (left : Expr) → Cursor Expr
  | 0, _, left => return left
  | steps + 1, least, left => do
    match (← get).head?.bind Expr.operator? with
    | none => return left
    | some op =>
      if op.rank < least then return left
      else do
        advance
        let first ← atom
        let right ← climb atom steps (op.rank + 1) first
        if maxNesting < (Expr.binary op left right).depth then fail ending fun _ => .nestingTooDeep
        else climb atom steps least (.binary op left right)

/-- Reads operators over atoms, as `Expr.operation` does. -/
def operation (atom : Cursor Expr) (least : Nat) : Cursor Expr := do
  let first ← atom
  climb ending atom (← get).length least first

/-- Reads an atom, as `Expr.atom` does. Operands inside it are read by `inner`, if there may be any. -/
def atomOver (inner : Option (Cursor Expr)) : Cursor Expr := do
  match ← get with
  | [] => fail ending .expectedExpression
  | t :: _ =>
    match Expr.unaryAt? t with
    | some op => do
      advance
      match inner with
      | none => fail ending fun _ => .nestingTooDeep
      | some atom => return .unary op (← atom)
    | none =>
      if t.kind = .dollar then do
        advance
        return .var (← expectName ending .expectedVariableName) t.pos
      else if t.kind = .opening .round then do
        advance
        match inner with
        | none => fail ending fun _ => .nestingTooDeep
        | some atom => do
          let e ← operation ending atom 0
          expect ending (.closing .round) .groupEnd
          return e
      else
        match t.value with
        | some v => if Expr.isLiteral t then do advance; return .literal v else fail ending .expectedExpression
        | none => fail ending .expectedExpression

/-- Reads an atom inside `maxNesting - budget` unary operators and parentheses. -/
def atom : (budget : Nat) → Cursor Expr
  | 0 => atomOver ending none
  | budget + 1 => atomOver ending (some (atom budget))

/-- Reads an expression. -/
def expr : Cursor Expr := operation ending (atom ending maxNesting) 0

/-- Reads the guard of a choice, if there is one. -/
def guard : Cursor (Option Expr) := do
  if kindAt (← get) = .opening .brace then do
    advance
    let guard ← expr ending
    expect ending (.closing .brace) .choiceGuardEnd
    return some guard
  else return none

/-- Reads the text of a choice between its brackets. -/
def text : Cursor String := do
  expect ending (.opening .square) .choiceTextStart
  let text ← takeText
  expect ending (.closing .square) .choiceTextEnd
  return text

/-- Reads the target of a choice, if there is one. -/
def target : Cursor (Option String) := do
  if kindAt (← get) = .arrow then do
    advance
    return some (← expectName ending .expectedPassageName)
  else return none

/-- Reads a choice after its marker. -/
def choice (pos : Position) : Cursor Choice := do
  let guard ← guard ending
  let text ← text ending
  let target ← target ending
  expectEnd ending
  return ⟨text, guard, target, pos⟩

/-- Reads an assignment operator. -/
def assignOp : Cursor AssignOp := do
  match kindAt (← get) with
  | .assign op => do advance; return op
  | _ => fail ending .expectedAssignOp

/-- Reads an assignment after its `$`. -/
def assignment (pos : Position) : Cursor Assignment := do
  let name ← expectName ending .expectedVariableName
  let op ← assignOp ending
  let value ← expr ending
  expectEnd ending
  return ⟨name, op, value, pos⟩

/-- Reads the guard of a conditional after its opening brace. -/
def condition : Cursor Expr := do
  let guard ← expr ending
  expect ending (.closing .brace) .conditionEnd
  expectEnd ending
  return guard

/-- Reads a statement that takes one line. -/
def statement : Cursor Node := do
  match ← get with
  | [] => fail ending fun _ => .unexpectedToken TokenKind.endOfInput.description
  | t :: _ =>
    match t.kind with
    | .text => do advance; expectEnd ending; return .text t.content t.pos
    | .script => do advance; expectEnd ending; return .script t.content t.pos
    | .dollar => do advance; return .assignment (← assignment ending t.pos)
    | .choiceMarker => do advance; return .choice (← choice ending t.pos)
    | .arrow => do
      advance
      let target ← expectName ending .expectedPassageName
      expectEnd ending
      return .divert target t.pos
    | .metaKey => fail ending fun _ => .metadataAfterPassage t.content
    | _ => fail ending fun _ => .unexpectedToken t.describe

/-- Reads a metadata entry from its key on. -/
def entry : Cursor (String × String) := do
  match ← get with
  | [] => fail ending fun _ => .emptyMetadataKey
  | t :: _ => do
    advance
    if t.content = "" then throw ⟨.emptyMetadataKey, t.pos⟩
    else do
      let value ← takeText
      expectEnd ending
      return (t.content, value)

end

/-! ## Expressions -/

section

variable {rest line : List Token} {ending : Position} (hrest : Stops rest)

include hrest

theorem operator?_head : rest.head?.bind Expr.operator? = none := by
  cases rest with
  | nil => rfl
  | cons t ts =>
    show Expr.operator? t = none
    unfold Expr.operator?
    split
    · next op h => exact absurd h (hrest.kindAt_ne rfl)
    · rfl

/-- Each operation takes a token, so the tokens ahead are steps enough, as those on the line are. -/
theorem follows_climb {atom : Cursor Expr} {atom' : LineReader Expr}
    (hatom : ∀ line, Inner line → Follows rest line atom (atom' line)) {steps steps' : Nat} (least : Nat)
    (left : Expr) (hline : Inner line) (hsteps : line.length ≤ steps) (hsteps' : line.length ≤ steps') :
    Follows rest line (climb ending atom steps least left)
      (Expr.climb (LineEnd.ahead ending rest) atom' steps' least left line) := by
  induction steps generalizing steps' least left line with
  | zero =>
    obtain rfl := List.eq_nil_of_length_eq_zero (Nat.le_zero.mp hsteps)
    cases steps' <;> exact follows_pure rest [] left
  | succ steps ih =>
    refine follows_get ?_
    cases line with
    | nil =>
      rw [List.nil_append, operator?_head hrest]
      cases steps' <;> exact follows_pure rest [] left
    | cons t ts =>
      obtain ⟨steps', rfl⟩ := Nat.exists_eq_add_one_of_ne_zero (Nat.ne_zero_of_lt hsteps')
      have hhead : (t :: ts ++ rest).head?.bind Expr.operator? = Expr.operator? t := rfl
      rw [Expr.climb, hhead]
      rw [List.length_cons] at hsteps hsteps'
      cases Expr.operator? t with
      | none => exact follows_pure rest (t :: ts) left
      | some op =>
        dsimp only
        split
        · exact follows_pure rest (t :: ts) left
        refine Follows.cons hline.head ((hatom ts hline.tail).bind fun first more hmore => ?_)
        have hlength := hmore.length_le
        have hinner := hline.tail.of_suffix hmore
        refine (ih (op.rank + 1) first hinner (by omega) (by omega)).bind fun right more' hmore' => ?_
        have hlength' := hmore'.length_le
        have hinner' := hinner.of_suffix hmore'
        dsimp only
        split
        · exact follows_fail hinner' _
        · exact ih least _ hinner' (by omega) (by omega)

theorem follows_operation {atom : Cursor Expr} {atom' : LineReader Expr}
    (hatom : ∀ line, Inner line → Follows rest line atom (atom' line)) (least : Nat) (hline : Inner line) :
    Follows rest line (operation ending atom least)
      (Expr.operation (LineEnd.ahead ending rest) atom' least line) := by
  refine (hatom line hline).bind fun first more hmore => follows_get ?_
  refine follows_climb hrest hatom least first (hline.of_suffix hmore) ?_ (Nat.le_refl _)
  rw [List.length_append]
  exact Nat.le_add_right _ _

theorem follows_atomOver {budget : Nat} {inner : Option (Cursor Expr)}
    (hnone : inner = none → budget = 0)
    (hsome : ∀ atom, inner = some atom → ∃ less, budget = less + 1 ∧
      ∀ line, Inner line → Follows rest line atom (Expr.atom (LineEnd.ahead ending rest) less line))
    (hline : Inner line) :
    Follows rest line (atomOver ending inner) (Expr.atom (LineEnd.ahead ending rest) budget line) := by
  refine follows_get ?_
  cases line with
  | nil =>
    rw [Expr.atom, List.nil_append]
    cases rest with
    | nil => exact follows_fail hline _
    | cons t ts =>
      -- What ends the line is no atom.
      have hunary : Expr.unaryAt? t = none := by
        unfold Expr.unaryAt?
        split
        · next h => exact absurd h (hrest.kindAt_ne rfl)
        · next h => exact absurd h (hrest.kindAt_ne rfl)
        · rfl
      have hliteral : Expr.isLiteral t = false := by
        unfold Expr.isLiteral
        split
        · next h => exact absurd h (hrest.kindAt_ne rfl)
        · next h => exact absurd h (hrest.kindAt_ne rfl)
        · next h => exact absurd h (hrest.kindAt_ne rfl)
        · rfl
      have hdollar : t.kind ≠ .dollar := hrest.kindAt_ne rfl
      have hround : t.kind ≠ .opening .round := hrest.kindAt_ne rfl
      dsimp only
      rw [hunary]
      dsimp only
      rw [if_neg hdollar, if_neg hround]
      cases t.value with
      | none => exact follows_fail hline _
      | some v =>
        rw [hliteral]
        exact follows_fail hline _
  | cons t ts =>
    rw [Expr.atom.eq_def, List.cons_append]
    dsimp only
    cases Expr.unaryAt? t with
    | some op =>
      refine Follows.cons hline.head ?_
      cases inner with
      | none =>
        obtain rfl := hnone rfl
        exact follows_fail hline.tail _
      | some atom =>
        obtain ⟨less, rfl, hatom⟩ := hsome atom rfl
        exact (hatom ts hline.tail).bind fun e more _ => follows_pure rest more (Expr.unary op e)
    | none =>
      dsimp only
      split
      · refine Follows.cons hline.head ((follows_expectName hrest _ hline.tail).bind fun name more _ => ?_)
        exact follows_pure rest more _
      split
      · refine Follows.cons hline.head ?_
        cases inner with
        | none =>
          obtain rfl := hnone rfl
          exact follows_fail hline.tail _
        | some atom =>
          obtain ⟨less, rfl, hatom⟩ := hsome atom rfl
          refine (follows_operation hrest hatom 0 hline.tail).bind fun e more hmore => ?_
          refine (follows_expect hrest rfl _ (hline.tail.of_suffix hmore)).bind fun _ more _ => ?_
          exact follows_pure rest more e
      cases t.value with
      | none => exact follows_fail hline _
      | some v =>
        dsimp only
        split
        · exact (follows_pure rest ts _).cons hline.head
        · exact follows_fail hline _

theorem follows_atom (budget : Nat) (hline : Inner line) :
    Follows rest line (atom ending budget) (Expr.atom (LineEnd.ahead ending rest) budget line) := by
  induction budget generalizing line with
  | zero => exact follows_atomOver hrest (fun _ => rfl) (fun _ h => by cases h) hline
  | succ budget ih =>
    refine follows_atomOver hrest (fun h => by cases h) (fun atom h => ?_) hline
    cases h
    exact ⟨budget, rfl, fun line hline => ih hline⟩

theorem follows_expr (hline : Inner line) :
    Follows rest line (expr ending) (Expr.read (LineEnd.ahead ending rest) line) :=
  follows_operation hrest (fun _ hline => follows_atom hrest maxNesting hline) 0 hline

/-! ## Statements -/

theorem follows_guard (hline : Inner line) :
    Follows rest line (guard ending) (Choice.readGuard (LineEnd.ahead ending rest) line) := by
  refine follows_get ?_
  cases line with
  | nil =>
    rw [List.nil_append, if_neg (hrest.kindAt_ne rfl)]
    exact follows_pure rest [] none
  | cons t ts =>
    rw [Choice.readGuard, List.cons_append, kindAt]
    split
    · refine Follows.cons hline.head ((follows_expr hrest hline.tail).bind fun guard more hmore => ?_)
      refine (follows_expect hrest rfl _ (hline.tail.of_suffix hmore)).bind fun _ more _ => ?_
      exact follows_pure rest more (some guard)
    · exact follows_pure rest (t :: ts) none

theorem follows_text (hline : Inner line) :
    Follows rest line (text ending) (Choice.readText (LineEnd.ahead ending rest) line) := by
  refine (follows_expect hrest rfl _ hline).bind fun _ more hmore => ?_
  have hmore := hline.of_suffix hmore
  show Follows rest more _ (Except.ok (Choice.readText.takeText more) >>= fun p =>
    (LineEnd.ahead ending rest).expect (.closing .square) .choiceTextEnd p.2 >>= fun q => pure (p.1, q.2))
  refine (follows_takeText hrest hmore).bind fun content more' hmore' => ?_
  refine (follows_expect hrest rfl _ (hmore.of_suffix hmore')).bind fun _ more _ => ?_
  exact follows_pure rest more content

theorem follows_target (hline : Inner line) :
    Follows rest line (target ending) (Choice.readTarget (LineEnd.ahead ending rest) line) := by
  refine follows_get ?_
  cases line with
  | nil =>
    rw [List.nil_append, if_neg (hrest.kindAt_ne rfl)]
    exact follows_pure rest [] none
  | cons t ts =>
    rw [Choice.readTarget, List.cons_append, kindAt]
    split
    · refine Follows.cons hline.head ((follows_expectName hrest _ hline.tail).bind fun name more _ => ?_)
      exact follows_pure rest more (some name)
    · exact follows_pure rest (t :: ts) none

theorem finishes_choice (pos : Position) (hline : Inner line) :
    Finishes rest line (choice ending pos) (Choice.read (LineEnd.ahead ending rest) pos line) := by
  refine (follows_guard hrest hline).last fun guard more hmore => ?_
  have hmore := hline.of_suffix hmore
  refine (follows_text hrest hmore).last fun content more' hmore' => ?_
  have hmore' := hmore.of_suffix hmore'
  refine (follows_target hrest hmore').last fun name more'' hmore'' => ?_
  exact (finishes_expectEnd hrest (hmore'.of_suffix hmore'')).map fun _ => _

theorem follows_assignOp (hline : Inner line) :
    Follows rest line (assignOp ending) (Assignment.readOp (LineEnd.ahead ending rest) line) := by
  refine follows_get ?_
  cases line with
  | nil =>
    rw [List.nil_append, Assignment.readOp]
    split
    · next op h => exact absurd h (hrest.kindAt_ne rfl)
    · exact follows_fail hline _
  | cons t ts =>
    rw [Assignment.readOp, List.cons_append, kindAt]
    cases t.kind with
    | assign op => exact (follows_pure rest ts op).cons hline.head
    | _ => exact follows_fail hline _

theorem finishes_assignment (pos : Position) (hline : Inner line) :
    Finishes rest line (assignment ending pos) (Assignment.read (LineEnd.ahead ending rest) pos line) := by
  refine (follows_expectName hrest _ hline).last fun name more hmore => ?_
  have hmore := hline.of_suffix hmore
  refine (follows_assignOp hrest hmore).last fun op more' hmore' => ?_
  have hmore' := hmore.of_suffix hmore'
  refine (follows_expr hrest hmore').last fun value more'' hmore'' => ?_
  exact (finishes_expectEnd hrest (hmore'.of_suffix hmore'')).map fun _ => _

theorem finishes_condition (hline : Inner line) :
    Finishes rest line (condition ending) (Node.readCondition (LineEnd.ahead ending rest) line) := by
  refine (follows_expr hrest hline).last fun guard more hmore => ?_
  have hmore := hline.of_suffix hmore
  refine (follows_expect hrest rfl _ hmore).last fun _ more' hmore' => ?_
  exact (finishes_expectEnd hrest (hmore.of_suffix hmore')).map fun _ => _

theorem finishes_statement {t : Token} (hline : Inner (t :: line)) :
    Finishes rest (t :: line) (statement ending) (Node.read (LineEnd.ahead ending rest) t line) := by
  refine finishes_get ?_
  rw [Node.read, List.cons_append]
  dsimp only
  cases t.kind with
  | text => exact Finishes.cons hline.head ((finishes_expectEnd hrest hline.tail).map fun _ => _)
  | script => exact Finishes.cons hline.head ((finishes_expectEnd hrest hline.tail).map fun _ => _)
  | dollar => exact Finishes.cons hline.head ((finishes_assignment hrest t.pos hline.tail).map _)
  | choiceMarker => exact Finishes.cons hline.head ((finishes_choice hrest t.pos hline.tail).map _)
  | arrow =>
    refine Finishes.cons hline.head ((follows_expectName hrest _ hline.tail).last fun name more hmore => ?_)
    exact (finishes_expectEnd hrest (hline.tail.of_suffix hmore)).map fun _ => _
  | metaKey => exact finishes_fail hline fun _ => _
  | _ => exact finishes_fail hline fun _ => _

omit hrest in
/-- An entry with a key is the text after it, and nothing more. -/
theorem readEntry_eq {t : Token} (stop : LineEnd) (ts : List Token) (h : t.content ≠ "") :
    Preamble.readEntry stop t ts = do
      stop.expectEnd (Choice.readText.takeText ts).2
      return (t.content, (Choice.readText.takeText ts).1) := by
  rw [Preamble.readEntry.eq_def, if_neg h]
  cases ts with
  | nil => rfl
  | cons v more =>
    rw [Choice.readText.takeText]
    by_cases htext : v.kind = .text
    · simp only [if_pos htext]
    · simp only [if_neg htext]
      rfl

theorem finishes_entry {t : Token} (hline : Inner (t :: line)) :
    Finishes rest (t :: line) (entry ending) (Preamble.readEntry (LineEnd.ahead ending rest) t line) := by
  refine finishes_get (Finishes.cons hline.head ?_)
  by_cases hkey : t.content = ""
  · rw [if_pos hkey, Preamble.readEntry.eq_def, if_pos hkey]
    exact ⟨line, List.suffix_rfl, rfl⟩
  · rw [if_neg hkey, readEntry_eq _ line hkey]
    show Finishes rest line _ (Except.ok (Choice.readText.takeText line) >>= fun p => do
      (LineEnd.ahead ending rest).expectEnd p.2
      return (t.content, p.1))
    refine (follows_takeText hrest hline.tail).last fun value more hmore => ?_
    exact (finishes_expectEnd hrest (hline.tail.of_suffix hmore)).map fun _ => _

end

end Gamebook.Cursor
