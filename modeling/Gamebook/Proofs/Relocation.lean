/-
# Gamebook.Proofs.Relocation — reading a line does not look at places

A token carries its place, and what is read from tokens carries the places of the tokens it was read
from. No decision on the way depends on a place: moving every token by a map `f` of places moves the
expressions, statements and errors by the same map and changes nothing else. This module says so of the
readers that look at one line; `Gamebook.Proofs.Relocation.Story` goes on to whole stories.

Two maps matter. Moving everything down by a number of lines tells how a text is read below another
one; moving everything to one place forgets the places, so that two readings can be compared.
-/
import Gamebook.Story.Incident
import Gamebook.Story.Statement

namespace Gamebook

/-! ## Moving what carries places -/

/-- The token at the place `f` assigns to its own. -/
def Token.relocate (f : Position → Position) (t : Token) : Token := { t with pos := f t.pos }

/-- The end of a line, moved. -/
def LineEnd.relocate (f : Position → Position) (e : LineEnd) : LineEnd := { e with pos := f e.pos }

/-- A line with its tokens and its end moved. -/
def Line.relocate (f : Position → Position) (l : Line) : Line :=
  ⟨l.tokens.map (Token.relocate f), l.stop.relocate f⟩

/-- A syntax error, moved. -/
def SyntaxError.relocate (f : Position → Position) (e : SyntaxError) : SyntaxError :=
  { e with pos := f e.pos }

/-- An incident, moved. -/
def Incident.relocate (f : Position → Position) (i : Incident) : Incident :=
  { i with error := i.error.relocate f }

/-- An expression with the places of its variables moved. -/
def Expr.relocate (f : Position → Position) : Expr → Expr
  | literal v => literal v
  | var name pos => var name (f pos)
  | unary op e => unary op (e.relocate f)
  | binary op l r => binary op (l.relocate f) (r.relocate f)

/-- A choice, moved. -/
def Choice.relocate (f : Position → Position) (c : Choice) : Choice :=
  { c with guard := c.guard.map (Expr.relocate f), pos := f c.pos }

/-- An assignment, moved. -/
def Assignment.relocate (f : Position → Position) (a : Assignment) : Assignment :=
  { a with value := a.value.relocate f, pos := f a.pos }

mutual

/-- A statement with every place in it moved. -/
def Node.relocate (f : Position → Position) : Node → Node
  | .text content pos => .text content (f pos)
  | .choice c => .choice (c.relocate f)
  | .assignment a => .assignment (a.relocate f)
  | .conditional guard body otherwise opening closing =>
    .conditional (guard.relocate f) (Node.relocateAll f body)
      (match otherwise with
        | none => none
        | some branch => some (Node.relocateAll f branch))
      (f opening) (closing.map f)
  | .script code pos => .script code (f pos)
  | .divert target pos => .divert target (f pos)
  | .stray marker pos => .stray marker (f pos)

/-- A body with every place in it moved. -/
def Node.relocateAll (f : Position → Position) : List Node → List Node
  | [] => []
  | n :: ns => n.relocate f :: Node.relocateAll f ns

end

/-- The outcome of reading: a failure is moved by `f`, a value by `g`. -/
def relocateOutcome {α : Type} (f : Position → Position) (g : α → α) :
    Except SyntaxError α → Except SyntaxError α
  | .error e => .error (e.relocate f)
  | .ok a => .ok (g a)

/-- What a line reader returns, moved: the value by `g` and the tokens left by `f`. -/
def relocateRest {α : Type} (f : Position → Position) (g : α → α) (r : α × List Token) :
    α × List Token :=
  (g r.1, r.2.map (Token.relocate f))

section

variable {α β : Type} (f : Position → Position)

@[simp] theorem Token.relocate_kind (t : Token) : (t.relocate f).kind = t.kind := rfl

@[simp] theorem Token.relocate_value (t : Token) : (t.relocate f).value = t.value := rfl

@[simp] theorem Token.relocate_pos (t : Token) : (t.relocate f).pos = f t.pos := rfl

@[simp] theorem Token.relocate_describe (t : Token) : (t.relocate f).describe = t.describe := rfl

@[simp] theorem Token.relocate_content (t : Token) : (t.relocate f).content = t.content := rfl

@[simp] theorem relocateOutcome_error (g : α → α) (e : SyntaxError) :
    relocateOutcome f g (.error e) = .error (e.relocate f) := rfl

@[simp] theorem relocateOutcome_ok (g : α → α) (a : α) :
    relocateOutcome f g (.ok a) = .ok (g a) := rfl

/-- Reading one thing after another moves as its two steps do. -/
theorem relocateOutcome_bind (g : α → α) (g' : β → β) (x : Except SyntaxError α)
    (k k' : α → Except SyntaxError β) (h : ∀ a, k' (g a) = relocateOutcome f g' (k a)) :
    (relocateOutcome f g x >>= k') = relocateOutcome f g' (x >>= k) := by
  cases x with
  | error e => rfl
  | ok a => exact h a

@[simp] theorem Expr.depth_relocate (e : Expr) : (e.relocate f).depth = e.depth := by
  induction e with
  | literal v => rfl
  | var name pos => rfl
  | unary op e ih => simp only [Expr.relocate, Expr.depth, ih]
  | binary op l r ihl ihr => simp only [Expr.relocate, Expr.depth, ihl, ihr]

@[simp] theorem Node.relocateAll_eq_map (ns : List Node) :
    Node.relocateAll f ns = ns.map (Node.relocate f) := by
  induction ns with
  | nil => rfl
  | cons n ns ih => rw [Node.relocateAll, ih, List.map_cons]

/-! ## Readers of one line -/

@[simp] theorem LineEnd.here_relocate (stop : LineEnd) (ts : List Token) :
    (stop.relocate f).here (ts.map (Token.relocate f)) = f (stop.here ts) := by
  cases ts <;> rfl

@[simp] theorem LineEnd.next_relocate (stop : LineEnd) (ts : List Token) :
    (stop.relocate f).next (ts.map (Token.relocate f)) = stop.next ts := by
  cases ts <;> rfl

theorem LineEnd.fail_relocate (g : α → α) (stop : LineEnd) (ts : List Token) (fault : SyntaxFault) :
    (stop.relocate f).fail (ts.map (Token.relocate f)) fault
      = relocateOutcome f g (stop.fail ts fault) := by
  simp only [LineEnd.fail, LineEnd.here_relocate, relocateOutcome_error, SyntaxError.relocate]

theorem LineEnd.missing_relocate (g : α → α) (stop : LineEnd) (ts : List Token)
    (fault : Option String → SyntaxFault) :
    (stop.relocate f).missing (ts.map (Token.relocate f)) fault
      = relocateOutcome f g (stop.missing ts fault) := by
  rw [LineEnd.missing, LineEnd.next_relocate, LineEnd.fail_relocate f g]
  rfl

theorem LineEnd.expect_relocate (stop : LineEnd) (kind : TokenKind) (what : Expectation)
    (ts : List Token) :
    (stop.relocate f).expect kind what (ts.map (Token.relocate f))
      = relocateOutcome f (relocateRest f id) (stop.expect kind what ts) := by
  cases ts with
  | nil => exact LineEnd.missing_relocate f _ stop [] _
  | cons t ts =>
    have hkind : ((t.relocate f).kind = kind) = (t.kind = kind) := rfl
    rw [List.map_cons, LineEnd.expect, LineEnd.expect]
    by_cases h : t.kind = kind
    · rw [if_pos h, if_pos (hkind ▸ h)]
      rfl
    · rw [if_neg h, if_neg (hkind ▸ h)]
      exact LineEnd.missing_relocate f _ stop (t :: ts) _

theorem LineEnd.expectEnd_relocate (stop : LineEnd) (ts : List Token) :
    (stop.relocate f).expectEnd (ts.map (Token.relocate f))
      = relocateOutcome f id (stop.expectEnd ts) := by
  cases ts with
  | nil => rfl
  | cons t ts => exact LineEnd.missing_relocate f _ stop (t :: ts) _

theorem LineEnd.expectName_relocate (stop : LineEnd) (fault : Option String → SyntaxFault)
    (ts : List Token) :
    (stop.relocate f).expectName fault (ts.map (Token.relocate f))
      = relocateOutcome f (relocateRest f id) (stop.expectName fault ts) := by
  cases ts with
  | nil => exact LineEnd.missing_relocate f _ stop [] _
  | cons t ts =>
    have hkind : ((t.relocate f).kind = .identifier) = (t.kind = .identifier) := rfl
    rw [List.map_cons, LineEnd.expectName, LineEnd.expectName]
    by_cases h : t.kind = .identifier
    · rw [if_pos h, if_pos (hkind ▸ h)]
      rfl
    · rw [if_neg h, if_neg (hkind ▸ h)]
      exact LineEnd.missing_relocate f _ stop (t :: ts) _

/-! ## Expressions -/

section

variable (stop : LineEnd) {atom atom' : LineReader Expr}
  (h : ∀ ts, atom' (ts.map (Token.relocate f)) = relocateOutcome f (relocateRest f (Expr.relocate f)) (atom ts))

include h

theorem Expr.climb_relocate (steps least : Nat) (left : Expr) (ts : List Token) :
    Expr.climb (stop.relocate f) atom' steps least (left.relocate f) (ts.map (Token.relocate f))
      = relocateOutcome f (relocateRest f (Expr.relocate f)) (Expr.climb stop atom steps least left ts) := by
  induction steps generalizing least left ts with
  | zero => cases ts <;> rfl
  | succ steps ih =>
    cases ts with
    | nil => rfl
    | cons t ts =>
      have hop : Expr.operator? (t.relocate f) = Expr.operator? t := rfl
      rw [List.map_cons, Expr.climb, Expr.climb, hop]
      cases Expr.operator? t with
      | none => rfl
      | some op =>
        dsimp only
        split
        · rfl
        rw [h ts]
        apply relocateOutcome_bind
        rintro ⟨first, more⟩
        simp only [relocateRest]
        rw [ih]
        apply relocateOutcome_bind
        rintro ⟨right, rest⟩
        have hdepth : (Expr.binary op (left.relocate f) (right.relocate f)).depth
            = (Expr.binary op left right).depth := Expr.depth_relocate f (.binary op left right)
        simp only [relocateRest, hdepth]
        by_cases hd : maxNesting < (Expr.binary op left right).depth
        · rw [if_pos hd, if_pos hd]
          exact LineEnd.fail_relocate f _ stop rest _
        · rw [if_neg hd, if_neg hd]
          exact ih least (.binary op left right) rest

theorem Expr.operation_relocate (least : Nat) (ts : List Token) :
    Expr.operation (stop.relocate f) atom' least (ts.map (Token.relocate f))
      = relocateOutcome f (relocateRest f (Expr.relocate f)) (Expr.operation stop atom least ts) := by
  rw [Expr.operation, Expr.operation, h ts]
  apply relocateOutcome_bind
  rintro ⟨first, rest⟩
  simp only [relocateRest, List.length_map]
  exact Expr.climb_relocate f stop h rest.length least first rest

end

theorem Expr.atom_relocate (stop : LineEnd) (budget : Nat) (ts : List Token) :
    Expr.atom (stop.relocate f) budget (ts.map (Token.relocate f))
      = relocateOutcome f (relocateRest f (Expr.relocate f)) (Expr.atom stop budget ts) := by
  induction budget using Nat.strongRecOn generalizing ts with
  | ind budget ih =>
    cases ts with
    | nil =>
      rw [List.map_nil, Expr.atom, Expr.atom]
      exact LineEnd.missing_relocate f _ stop [] _
    | cons t ts =>
      have hun : Expr.unaryAt? (t.relocate f) = Expr.unaryAt? t := rfl
      have hlit : Expr.isLiteral (t.relocate f) = Expr.isLiteral t := rfl
      rw [List.map_cons, Expr.atom.eq_def, Expr.atom.eq_def]
      simp only [hun, hlit, Token.relocate_kind, Token.relocate_value, Token.relocate_pos]
      cases Expr.unaryAt? t with
      | some op =>
        cases budget with
        | zero => exact LineEnd.fail_relocate f _ stop ts _
        | succ budget =>
          simp only
          rw [ih budget (Nat.lt_succ_self budget) ts]
          apply relocateOutcome_bind
          rintro ⟨e, rest⟩
          rfl
      | none =>
        simp only
        by_cases hd : t.kind = .dollar
        · rw [if_pos hd, if_pos hd, LineEnd.expectName_relocate]
          apply relocateOutcome_bind
          rintro ⟨name, rest⟩
          rfl
        · rw [if_neg hd, if_neg hd]
          by_cases hp : t.kind = .opening .round
          · rw [if_pos hp, if_pos hp]
            cases budget with
            | zero => exact LineEnd.fail_relocate f _ stop ts _
            | succ budget =>
              simp only
              rw [Expr.operation_relocate f stop (ih budget (Nat.lt_succ_self budget))]
              apply relocateOutcome_bind
              rintro ⟨e, rest⟩
              simp only [relocateRest]
              rw [LineEnd.expect_relocate]
              apply relocateOutcome_bind
              rintro ⟨⟨⟩, rest⟩
              rfl
          · rw [if_neg hp, if_neg hp]
            cases t.value with
            | none => exact LineEnd.missing_relocate f _ stop (t :: ts) _
            | some v =>
              by_cases hl : Expr.isLiteral t = true
              · simp only [hl, if_true]
                rfl
              · simp only [hl]
                exact LineEnd.missing_relocate f _ stop (t :: ts) _

theorem Expr.read_relocate (stop : LineEnd) (ts : List Token) :
    Expr.read (stop.relocate f) (ts.map (Token.relocate f))
      = relocateOutcome f (relocateRest f (Expr.relocate f)) (Expr.read stop ts) :=
  Expr.operation_relocate f stop (Expr.atom_relocate f stop maxNesting) 0 ts

/-! ## Statements -/

theorem Choice.readGuard_relocate (stop : LineEnd) (ts : List Token) :
    Choice.readGuard (stop.relocate f) (ts.map (Token.relocate f))
      = relocateOutcome f (relocateRest f (Option.map (Expr.relocate f)))
          (Choice.readGuard stop ts) := by
  cases ts with
  | nil => rfl
  | cons t ts =>
    have hkind : ((t.relocate f).kind = .opening .brace) = (t.kind = .opening .brace) := rfl
    rw [List.map_cons, Choice.readGuard, Choice.readGuard]
    by_cases h : t.kind = .opening .brace
    · rw [if_pos h, if_pos (hkind ▸ h), Expr.read_relocate]
      apply relocateOutcome_bind
      rintro ⟨guard, rest⟩
      simp only [relocateRest]
      rw [LineEnd.expect_relocate]
      apply relocateOutcome_bind
      rintro ⟨⟨⟩, rest⟩
      rfl
    · rw [if_neg h, if_neg (hkind ▸ h)]
      rfl

theorem Choice.takeText_relocate (ts : List Token) :
    Choice.readText.takeText (ts.map (Token.relocate f))
      = relocateRest f id (Choice.readText.takeText ts) := by
  cases ts with
  | nil => rfl
  | cons t ts =>
    have hkind : ((t.relocate f).kind = .text) = (t.kind = .text) := rfl
    rw [List.map_cons, Choice.readText.takeText, Choice.readText.takeText]
    by_cases h : t.kind = .text
    · rw [if_pos h, if_pos (hkind ▸ h)]
      rfl
    · rw [if_neg h, if_neg (hkind ▸ h)]
      rfl

theorem Choice.readText_relocate (stop : LineEnd) (ts : List Token) :
    Choice.readText (stop.relocate f) (ts.map (Token.relocate f))
      = relocateOutcome f (relocateRest f id) (Choice.readText stop ts) := by
  rw [Choice.readText, Choice.readText, LineEnd.expect_relocate]
  apply relocateOutcome_bind
  rintro ⟨⟨⟩, rest⟩
  simp only [relocateRest]
  rw [Choice.takeText_relocate]
  simp only [relocateRest]
  rw [LineEnd.expect_relocate]
  apply relocateOutcome_bind
  rintro ⟨⟨⟩, rest⟩
  rfl

theorem Choice.readTarget_relocate (stop : LineEnd) (ts : List Token) :
    Choice.readTarget (stop.relocate f) (ts.map (Token.relocate f))
      = relocateOutcome f (relocateRest f id) (Choice.readTarget stop ts) := by
  cases ts with
  | nil => rfl
  | cons t ts =>
    have hkind : ((t.relocate f).kind = .arrow) = (t.kind = .arrow) := rfl
    rw [List.map_cons, Choice.readTarget, Choice.readTarget]
    by_cases h : t.kind = .arrow
    · rw [if_pos h, if_pos (hkind ▸ h), LineEnd.expectName_relocate]
      apply relocateOutcome_bind
      rintro ⟨target, rest⟩
      rfl
    · rw [if_neg h, if_neg (hkind ▸ h)]
      rfl

theorem Choice.read_relocate (stop : LineEnd) (pos : Position) (ts : List Token) :
    Choice.read (stop.relocate f) (f pos) (ts.map (Token.relocate f))
      = relocateOutcome f (Choice.relocate f) (Choice.read stop pos ts) := by
  rw [Choice.read, Choice.read, Choice.readGuard_relocate]
  apply relocateOutcome_bind
  rintro ⟨guard, rest⟩
  simp only [relocateRest]
  rw [Choice.readText_relocate]
  apply relocateOutcome_bind
  rintro ⟨text, rest⟩
  simp only [relocateRest]
  rw [Choice.readTarget_relocate]
  apply relocateOutcome_bind
  rintro ⟨target, rest⟩
  simp only [relocateRest]
  rw [LineEnd.expectEnd_relocate]
  apply relocateOutcome_bind
  rintro ⟨⟩
  rfl

theorem Assignment.readOp_relocate (stop : LineEnd) (ts : List Token) :
    Assignment.readOp (stop.relocate f) (ts.map (Token.relocate f))
      = relocateOutcome f (relocateRest f id) (Assignment.readOp stop ts) := by
  cases ts with
  | nil => exact LineEnd.missing_relocate f _ stop [] _
  | cons t ts =>
    rw [List.map_cons, Assignment.readOp.eq_def, Assignment.readOp.eq_def]
    simp only [Token.relocate_kind]
    split
    · rfl
    · exact LineEnd.missing_relocate f _ stop (t :: ts) _

theorem Assignment.read_relocate (stop : LineEnd) (pos : Position) (ts : List Token) :
    Assignment.read (stop.relocate f) (f pos) (ts.map (Token.relocate f))
      = relocateOutcome f (Assignment.relocate f) (Assignment.read stop pos ts) := by
  rw [Assignment.read, Assignment.read, LineEnd.expectName_relocate]
  apply relocateOutcome_bind
  rintro ⟨name, rest⟩
  simp only [relocateRest]
  rw [Assignment.readOp_relocate]
  apply relocateOutcome_bind
  rintro ⟨op, rest⟩
  simp only [relocateRest]
  rw [Expr.read_relocate]
  apply relocateOutcome_bind
  rintro ⟨value, rest⟩
  simp only [relocateRest]
  rw [LineEnd.expectEnd_relocate]
  apply relocateOutcome_bind
  rintro ⟨⟩
  rfl

theorem Node.readCondition_relocate (stop : LineEnd) (ts : List Token) :
    Node.readCondition (stop.relocate f) (ts.map (Token.relocate f))
      = relocateOutcome f (Expr.relocate f) (Node.readCondition stop ts) := by
  rw [Node.readCondition, Node.readCondition, Expr.read_relocate]
  apply relocateOutcome_bind
  rintro ⟨guard, rest⟩
  simp only [relocateRest]
  rw [LineEnd.expect_relocate]
  apply relocateOutcome_bind
  rintro ⟨⟨⟩, rest⟩
  simp only [relocateRest]
  rw [LineEnd.expectEnd_relocate]
  apply relocateOutcome_bind
  rintro ⟨⟩
  rfl

theorem Node.readDivert_relocate (stop : LineEnd) (pos : Position) (ts : List Token) :
    Node.readDivert (stop.relocate f) (f pos) (ts.map (Token.relocate f))
      = relocateOutcome f (Node.relocate f) (Node.readDivert stop pos ts) := by
  rw [Node.readDivert, Node.readDivert, LineEnd.expectName_relocate]
  apply relocateOutcome_bind
  rintro ⟨target, rest⟩
  simp only [relocateRest]
  rw [LineEnd.expectEnd_relocate]
  apply relocateOutcome_bind
  rintro ⟨⟩
  rfl

theorem Node.read_relocate (stop : LineEnd) (t : Token) (ts : List Token) :
    Node.read (stop.relocate f) (t.relocate f) (ts.map (Token.relocate f))
      = relocateOutcome f (Node.relocate f) (Node.read stop t ts) := by
  rw [Node.read.eq_def, Node.read.eq_def]
  simp only [Token.relocate_kind, Token.relocate_pos, Token.relocate_content,
    Token.relocate_describe]
  split
  · rw [LineEnd.expectEnd_relocate]
    exact relocateOutcome_bind f _ _ _ _ _ fun _ => rfl
  · rw [LineEnd.expectEnd_relocate]
    exact relocateOutcome_bind f _ _ _ _ _ fun _ => rfl
  · rw [Assignment.read_relocate]
    exact relocateOutcome_bind f _ _ _ _ _ fun _ => rfl
  · rw [Choice.read_relocate]
    exact relocateOutcome_bind f _ _ _ _ _ fun _ => rfl
  · exact Node.readDivert_relocate f stop t.pos ts
  · exact LineEnd.fail_relocate f _ stop (t :: ts) _
  · exact LineEnd.fail_relocate f _ stop (t :: ts) _

end

end Gamebook
