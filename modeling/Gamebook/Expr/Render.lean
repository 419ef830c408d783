/-
# Gamebook.Expr.Render — the canonical text of an expression

One blank on each side of a binary operator, none after a unary one, and parentheses only where the
ranks of the operators ask for them: around a left operand that binds looser than its operator, around
a right operand that does not bind tighter, and around a binary operand of a unary operator.

The least integer has no literal of its own, since a minus sign is an operator and its magnitude does
not fit: it is written as a difference.
-/
import Gamebook.Expr
import Gamebook.Decimal.Numeral

namespace Gamebook

namespace Literal

/-- A character of a string literal as written between the quotes. -/
def escape (c : Char) : List Char :=
  if c = '"' then ['\\', '"']
  else if c = '\\' then ['\\', '\\']
  else if c = '\n' then ['\\', 'n']
  else if c = '\t' then ['\\', 't']
  else [c]

/-- A string literal with its quotes. -/
def quoted (s : String) : List Char :=
  '"' :: (s.toList.flatMap escape ++ ['"'])

/-- The text of a truth value. -/
def boolChars (b : Bool) : List Char :=
  if b then ['t', 'r', 'u', 'e'] else ['f', 'a', 'l', 's', 'e']

/-- The canonical text of a literal. -/
def chars : Literal → List Char
  | int n =>
    if n = Int64.minValue then "(-9223372036854775807 - 1)".toList else Decimal.integer n
  | float f => if Decimal.isWhole f then Decimal.oneDecimal f else Decimal.fewestDecimals f
  | bool b => boolChars b
  | str s => quoted s

end Literal

namespace Expr

/-- How tight an expression binds as an operand. -/
def rank : Expr → Nat
  | binary op _ _ => op.rank
  | _ => BinaryOp.unaryRank

/-- Puts parentheses around a text when asked to. -/
def enclose (needed : Bool) (text : List Char) : List Char :=
  if needed then '(' :: (text ++ [')']) else text

/-- The characters of the canonical text. -/
def chars : Expr → List Char
  | literal v => v.chars
  | var name _ => '$' :: name.toList
  | unary op e => op.symbol.toList ++ enclose (e.rank < BinaryOp.unaryRank) e.chars
  | binary op l r =>
    enclose (l.rank < op.rank) l.chars ++
      ' ' :: (op.symbol.toList ++ ' ' :: enclose (r.rank ≤ op.rank) r.chars)

/-- The canonical text. -/
def render (e : Expr) : String := String.ofList e.chars

end Expr

end Gamebook
