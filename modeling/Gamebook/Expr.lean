/-
# Gamebook.Expr — expressions

Guards and assigned values are expressions over literals and variables. A variable remembers where it
was read, so that a report can point there.
-/
import Gamebook.Position
import Gamebook.Operator
import Gamebook.Literal

namespace Gamebook

/-- An expression. -/
inductive Expr where
  | literal (value : Literal)
  | var (name : String) (pos : Position)
  | unary (op : UnaryOp) (operand : Expr)
  | binary (op : BinaryOp) (left right : Expr)
  deriving DecidableEq, Inhabited

namespace Expr

/-- The literal, if the expression is one. -/
def literal? : Expr → Option Literal
  | literal v => some v
  | _ => none

/-- The height of the tree; a literal and a variable have height one. -/
def depth : Expr → Nat
  | literal _ | var _ _ => 1
  | unary _ e => e.depth + 1
  | binary _ l r => max l.depth r.depth + 1

/-- The variables that are read, with their places, from left to right. -/
def reads : Expr → List (String × Position)
  | literal _ => []
  | var name pos => [(name, pos)]
  | unary _ e => e.reads
  | binary _ l r => l.reads ++ r.reads

/-- Equality of expressions up to what `Literal.agrees` identifies. -/
def agrees : Expr → Expr → Bool
  | literal a, literal b => a.agrees b
  | var n p, var m q => n = m && p = q
  | unary f a, unary g b => f = g && a.agrees b
  | binary f a b, binary g c d => f = g && a.agrees c && b.agrees d
  | _, _ => false

/-! ## Building expressions in code -/

/-- An integer. -/
def int (n : Int64) : Expr := literal (.int n)

/-- A truth value. -/
def bool (b : Bool) : Expr := literal (.bool b)

/-- A string. -/
def str (s : String) : Expr := literal (.str s)

/-- A variable that was not read from a text. -/
def named (name : String) : Expr := var name .unplaced

end Expr

end Gamebook
