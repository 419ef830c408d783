/-
# Gamebook.Expr.Read — reading an expression from a line

An expression is a row of *atoms* with operators between them. Atoms are literals, variables, parenthesised
expressions and atoms after a unary operator. One loop goes over the row and builds the tree, with a least rank for
the operators that it may take: the right operand of an operator is read by the same loop, and only tighter operators
count there. So operators of one rank associate to the left.

Two limits keep the tree low. An atom may stand inside at most `maxNesting` unary operators and
parentheses, which `atom` counts down as its budget, and a binary operation that would be higher than
`maxNesting` is refused as soon as its right operand has been read.
-/
import Gamebook.Expr
import Gamebook.Line

namespace Gamebook.Expr

/-- The binary operator a token stands for. -/
def operator? (t : Token) : Option BinaryOp :=
  match t.kind with
  | .operator op => some op
  | _ => none

/-- Goes on after `left`: as long as an operator of the rank `least` or a tighter one follows, takes it and its
right operand. An operation takes at least one token, so `steps` may be any bound on the number of tokens left. -/
def climb (stop : LineEnd) (atom : LineReader Expr) :
    (steps least : Nat) → (left : Expr) → LineReader Expr
  | steps + 1, least, left, t :: ts =>
    match operator? t with
    | none => .ok (left, t :: ts)
    | some op =>
      if op.rank < least then .ok (left, t :: ts)
      else do
        let (first, rest) ← atom ts
        let (right, rest) ← climb stop atom steps (op.rank + 1) first rest
        let e := binary op left right
        if maxNesting < e.depth then stop.fail rest .nestingTooDeep
        else climb stop atom steps least e rest
  | _, _, left, ts => .ok (left, ts)

/-- Reads atoms and the operators of the rank `least` and tighter ones between them. -/
def operation (stop : LineEnd) (atom : LineReader Expr) (least : Nat) : LineReader Expr := fun ts => do
  let (first, rest) ← atom ts
  climb stop atom rest.length least first rest

/-- The unary operator a token stands for. -/
def unaryAt? (t : Token) : Option UnaryOp :=
  match t.kind with
  | .bang => some .not
  | .operator .sub => some .neg
  | _ => none

/-- Whether a token is a literal, if it carries a value. -/
def isLiteral (t : Token) : Bool :=
  match t.kind with
  | .number | .string | .boolean _ => true
  | _ => false

/-- Reads an atom inside `maxNesting - budget` unary operators and parentheses. -/
def atom (stop : LineEnd) : (budget : Nat) → LineReader Expr
  | _, [] => stop.missing [] .expectedExpression
  | budget, t :: ts =>
    match unaryAt? t with
    | some op =>
      match budget with
      | 0 => stop.fail ts .nestingTooDeep
      | budget + 1 => do
        let (e, rest) ← atom stop budget ts
        return (unary op e, rest)
    | none =>
      if t.kind = .dollar then do
        let (name, rest) ← stop.expectName .expectedVariableName ts
        return (var name t.pos, rest)
      else if t.kind = .opening .round then
        match budget with
        | 0 => stop.fail ts .nestingTooDeep
        | budget + 1 => do
          let (e, rest) ← operation stop (atom stop budget) 0 ts
          let ((), rest) ← stop.expect (.closing .round) .groupEnd rest
          return (e, rest)
      else
        match t.value with
        | some v =>
          if isLiteral t then .ok (literal v, ts) else stop.missing (t :: ts) .expectedExpression
        | none => stop.missing (t :: ts) .expectedExpression

/-- Reads an expression. -/
def read (stop : LineEnd) : LineReader Expr :=
  operation stop (atom stop maxNesting) 0

end Gamebook.Expr
