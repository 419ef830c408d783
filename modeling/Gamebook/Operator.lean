/-
# Gamebook.Operator — operators, brackets and block markers of the story script

The small closed vocabularies that tokens, expressions and statements share. Binary operators carry
a *rank*, their binding strength: a higher rank binds tighter, operators of one rank associate to
the left, and `unaryRank` lies above them all.
-/

namespace Gamebook

/-- Operators with one operand: `!` and `-`. -/
inductive UnaryOp where
  | not
  | neg
  deriving DecidableEq, Inhabited

/-- Operators with two operands. -/
inductive BinaryOp where
  | or
  | and
  | eq
  | ne
  | lt
  | le
  | gt
  | ge
  | add
  | sub
  | mul
  | div
  | mod
  deriving DecidableEq, Inhabited

/-- How an assignment uses the old value of its variable. -/
inductive AssignOp where
  | set
  | add
  | sub
  | mul
  | div
  deriving DecidableEq, Inhabited

/-- The markers `{/}` and `{else}` that close and divide a conditional. -/
inductive Marker where
  | close
  | otherwise
  deriving DecidableEq, Inhabited

/-- The three kinds of bracket. -/
inductive Bracket where
  | brace
  | square
  | round
  deriving DecidableEq, Inhabited

namespace UnaryOp

/-- The canonical spelling. -/
def symbol : UnaryOp → String
  | not => "!"
  | neg => "-"

end UnaryOp

namespace BinaryOp

/-- The binding strength, loosest first. -/
def rank : BinaryOp → Nat
  | or => 0
  | and => 1
  | eq | ne => 2
  | lt | le | gt | ge => 3
  | add | sub => 4
  | mul | div | mod => 5

/-- The rank above every binary operator; operands that are no binary expression have it. -/
def unaryRank : Nat := 6

theorem rank_lt_unaryRank (op : BinaryOp) : op.rank < unaryRank := by
  cases op <;> decide

/-- The canonical spelling. -/
def symbol : BinaryOp → String
  | or => "||"
  | and => "&&"
  | eq => "=="
  | ne => "!="
  | lt => "<"
  | le => "<="
  | gt => ">"
  | ge => ">="
  | add => "+"
  | sub => "-"
  | mul => "*"
  | div => "/"
  | mod => "%"

end BinaryOp

namespace AssignOp

/-- The canonical spelling. -/
def symbol : AssignOp → String
  | set => "="
  | add => "+="
  | sub => "-="
  | mul => "*="
  | div => "/="

/-- The operator that a compound assignment applies to the old value. -/
def binary? : AssignOp → Option BinaryOp
  | set => none
  | add => some .add
  | sub => some .sub
  | mul => some .mul
  | div => some .div

end AssignOp

namespace Marker

/-- The spelling in a story script. -/
def spelling : Marker → String
  | close => "\x7b/\x7d"
  | otherwise => "\x7belse\x7d"

/-- The word for the marker in messages. -/
def word : Marker → String
  | close => "close"
  | otherwise => "else"

end Marker

end Gamebook
