/-
# Gamebook.Lua.Expr — expressions in Lua

Lua has the same operators under other names and with other ranks: all six comparisons share one rank,
and `not` and unary minus lie just below the atoms. Parentheses follow Lua's ranks. A minus before a
text that starts with a minus gets parentheses too, since two of them would start a comment.

Variables are asked of the host, and the least integer, which Lua reads as a decimal, has a name.
-/
import Gamebook.Expr.Render
import Gamebook.Lua.Quoted

namespace Gamebook.Lua

/-- The binding strength of an operator in Lua. -/
def opRank : BinaryOp → Nat
  | .or => 1
  | .and => 2
  | .eq | .ne | .lt | .le | .gt | .ge => 3
  | .add | .sub => 5
  | .mul | .div | .mod => 6

/-- The binding strength of `not` and unary minus. -/
def unaryRank : Nat := 7

/-- How tight an expression binds as an operand in Lua. -/
def rank : Expr → Nat
  | .literal _ | .var _ _ => 8
  | .unary _ _ => unaryRank
  | .binary op _ _ => opRank op

/-- The spelling of an operator in Lua. -/
def spelling : BinaryOp → String
  | .or => "or"
  | .and => "and"
  | .ne => "~="
  | op => op.symbol

/-- A decimal in Lua. -/
def decimal (f : Float) : List Char :=
  if Decimal.isWhole f && (Decimal.Binary64.ofFloat f).isFinite then Decimal.oneDecimal f
  else Decimal.fewestDecimals f

/-- A literal in Lua. -/
def literal : Literal → List Char
  | .int n => if n = Int64.minValue then "math.mininteger".toList else Decimal.integer n
  | .float f => decimal f
  | .str s => quoted s
  | .bool b => Literal.boolChars b

/-- The value of a variable, asked of the host. -/
def fetch (name : String) : List Char :=
  "rt:get(".toList ++ quoted name ++ [')']

/-- A unary operation on an operand that has its parentheses. -/
def unary : UnaryOp → List Char → List Char
  | .not, operand => "not ".toList ++ operand
  | .neg, operand => '-' :: Expr.enclose (operand.head? = some '-') operand

/-- An expression in Lua. -/
def expr : Expr → List Char
  | .literal v => literal v
  | .var name _ => fetch name
  | .unary op e => unary op (Expr.enclose (rank e < unaryRank) (expr e))
  | .binary op l r =>
    Expr.enclose (rank l < opRank op) (expr l) ++
      ' ' :: ((spelling op).toList ++ ' ' :: Expr.enclose (rank r < opRank op + 1) (expr r))

end Gamebook.Lua
