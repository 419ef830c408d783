/-
# Gamebook.Expr.Fold — constant folding

Folding works from the leaves up and replaces an operation on literals by its result where the result
is certain whatever runs the story: checked integer arithmetic, decimal arithmetic with a finite
result, comparisons of integers and of strings, logic on truth values. Division and remainder are
never folded, and neither is arithmetic that would yield the least integer, which has no literal. A
conjunction that starts with `false` and a disjunction that starts with `true` are decided whatever
follows.
-/
import Gamebook.Expr

namespace Gamebook

namespace Literal

/-- The largest integer that a literal can be, `2 ^ 63 - 1`. -/
def maxInt : Int := 9223372036854775807

/-- An integer result, if it lies in the range of literals and their negations. -/
def ofInt? (n : Int) : Option Literal :=
  if -maxInt ≤ n ∧ n ≤ maxInt then some (int (Int64.ofInt n)) else none

/-- A decimal result, if it is finite. -/
def ofFloat? (f : Float) : Option Literal :=
  if f.isFinite then some (float f) else none

/-- The exact result of an arithmetic operator that is folded. -/
def intArith? : BinaryOp → Int → Int → Option Int
  | .add, a, b => some (a + b)
  | .sub, a, b => some (a - b)
  | .mul, a, b => some (a * b)
  | _, _, _ => none

/-- The rounded result of an arithmetic operator that is folded. -/
def floatArith? : BinaryOp → Float → Float → Option Float
  | .add, a, b => some (a + b)
  | .sub, a, b => some (a - b)
  | .mul, a, b => some (a * b)
  | _, _, _ => none

/-- Arithmetic on literals; an integer next to a decimal counts as the nearest decimal. -/
def arith? (op : BinaryOp) : Literal → Literal → Option Literal
  | int a, int b => (intArith? op a.toInt b.toInt).bind ofInt?
  | float a, float b => (floatArith? op a b).bind ofFloat?
  | int a, float b => (floatArith? op a.toFloat b).bind ofFloat?
  | float a, int b => (floatArith? op a b.toFloat).bind ofFloat?
  | _, _ => none

/-- Equality of two literals of one kind; decimals are left alone. -/
def equal? : Literal → Literal → Option Bool
  | int a, int b => some (a = b)
  | str a, str b => some (a = b)
  | bool a, bool b => some (a = b)
  | _, _ => none

/-- Whether the first literal comes before the second: integers by value, strings by code point. -/
def before? : Literal → Literal → Option Bool
  | int a, int b => some (a < b)
  | str a, str b => some (a < b)
  | _, _ => none

/-- A logical operator on truth values. -/
def logic? (f : Bool → Bool → Bool) : Literal → Literal → Option Bool
  | bool a, bool b => some (f a b)
  | _, _ => none

/-- The result of a binary operator on literals, where it is certain. -/
def binary? (op : BinaryOp) (a b : Literal) : Option Literal :=
  match op with
  | .add | .sub | .mul => arith? op a b
  | .div | .mod => none
  | .eq => (equal? a b).map bool
  | .ne => (equal? a b).map fun e => bool (!e)
  | .lt => (before? a b).map bool
  | .gt => (before? b a).map bool
  | .le => (before? b a).map fun g => bool (!g)
  | .ge => (before? a b).map fun l => bool (!l)
  | .and => (logic? Bool.and a b).map bool
  | .or => (logic? Bool.or a b).map bool

/-- The result of a unary operator on a literal, where it is certain. -/
def unary? : UnaryOp → Literal → Option Literal
  | .not, bool b => some (bool (!b))
  | .neg, int n => if n = Int64.minValue then none else some (int (-n))
  | .neg, float f => some (float (-f))
  | _, _ => none

end Literal

namespace Expr

/-- The result of an operator that its left operand decides alone. -/
def decided? (op : BinaryOp) (left : Expr) : Option Bool :=
  match op, left with
  | .and, literal (.bool false) => some false
  | .or, literal (.bool true) => some true
  | _, _ => none

/-- A unary operation on a folded operand. -/
def foldUnary (op : UnaryOp) (e : Expr) : Expr :=
  match e.literal?.bind (Literal.unary? op) with
  | some v => literal v
  | none => unary op e

/-- A binary operation on folded operands. -/
def foldBinary (op : BinaryOp) (l r : Expr) : Expr :=
  match decided? op l with
  | some b => literal (.bool b)
  | none =>
    match l, r with
    | literal a, literal b =>
      match Literal.binary? op a b with
      | some v => literal v
      | none => binary op (literal a) (literal b)
    | l, r => binary op l r

/-- The expression with every certain operation on literals carried out. -/
def fold : Expr → Expr
  | literal v => literal v
  | var name pos => var name pos
  | unary op e => foldUnary op e.fold
  | binary op l r => foldBinary op l.fold r.fold

end Expr

end Gamebook
