/-
# Gamebook.SyntaxError — what can be wrong with the order of tokens

A syntax error is a cause and the place of the token where reading stopped. Most causes also tell what
was found there, `none` standing for the end of the line.
-/
import Gamebook.Position

namespace Gamebook

/-- A token that the grammar asks for at some point. -/
inductive Expectation where
  | lineEnd
  | tagsEnd
  | choiceGuardEnd
  | choiceTextStart
  | choiceTextEnd
  | conditionEnd
  | groupEnd
  deriving DecidableEq, Inhabited

namespace Expectation

/-- The words for what is missing. -/
def text : Expectation → String
  | lineEnd => "end of line"
  | tagsEnd => "']'"
  | choiceGuardEnd => "'\x7d' after choice condition"
  | choiceTextStart => "'[' before choice text"
  | choiceTextEnd => "']' after choice text"
  | conditionEnd => "'\x7d' after condition"
  | groupEnd => "')'"

end Expectation

/-- The cause of a syntax error. -/
inductive SyntaxFault where
  /-- `::` or `->` without a name after it. -/
  | expectedPassageName (found : Option String)
  /-- `$` without a name after it. -/
  | expectedVariableName (found : Option String)
  /-- A variable at the start of a line without an assignment operator after it. -/
  | expectedAssignOp (found : Option String)
  /-- An operand is missing. -/
  | expectedExpression (found : Option String)
  /-- A fixed token is missing. -/
  | expected (what : Expectation) (found : Option String)
  /-- A line that starts with what no statement starts with. -/
  | unexpectedToken (found : String)
  /-- Prose or statements before the first passage. -/
  | contentOutsidePassage
  /-- Metadata after the first passage. -/
  | metadataAfterPassage (key : String)
  /-- A `@` without a key. -/
  | emptyMetadataKey
  /-- Conditionals or operands nested beyond the limit. -/
  | nestingTooDeep
  deriving DecidableEq, Inhabited

/-- The deepest nesting of conditionals, and of operands, that is read. Later stages recurse over the
tree. -/
def maxNesting : Nat := 128

namespace SyntaxFault

/-- What was found, at the end of a message. -/
def foundText : Option String → String
  | none => ", found end of line"
  | some t => ", found " ++ t

/-- The wording of a cause. -/
def message : SyntaxFault → String
  | expectedPassageName found => "expected passage name" ++ foundText found
  | expectedVariableName found => "expected variable name after '$'" ++ foundText found
  | expectedAssignOp found => "expected assignment operator" ++ foundText found
  | expectedExpression found => "expected expression" ++ foundText found
  | expected what found => "expected " ++ what.text ++ foundText found
  | unexpectedToken found => "unexpected " ++ found
  | contentOutsidePassage => "content before the first passage, start one with ':: Name'"
  | metadataAfterPassage key => "metadata '@" ++ key ++ "' must appear before the first passage"
  | emptyMetadataKey => "expected metadata key after '@'"
  | nestingTooDeep => "nesting deeper than " ++ toString maxNesting ++ " levels"

end SyntaxFault

/-- A cause and the place where reading stopped. -/
structure SyntaxError where
  fault : SyntaxFault
  pos : Position
  deriving DecidableEq, Inhabited

namespace SyntaxError

/-- The wording with the place. -/
def message (e : SyntaxError) : String := e.fault.message ++ e.pos.suffix

end SyntaxError

end Gamebook
