/-
# Gamebook.Story.Incident — syntax errors and what becomes of them

A line that cannot be read is skipped as a whole. Its error is reported unless the line holds a token
that is no word of the language: that fault has been reported already, and an error on the same line
would mostly repeat it. Errors about the layout of the story, not of one line, are always reported.
-/
import Gamebook.Line

namespace Gamebook

/-- What becomes of a syntax error. -/
inductive Handling where
  /-- Reported; its line was skipped. -/
  | reported
  /-- Not reported, as its line holds an invalid token. -/
  | suppressed
  /-- Reported for what its place in the story is, not for what its line holds. -/
  | structural
  deriving DecidableEq, Inhabited

/-- A syntax error and what becomes of it. -/
structure Incident where
  error : SyntaxError
  handling : Handling
  deriving DecidableEq, Inhabited

namespace Incident

/-- The incident of a line with the given tokens that cannot be read. -/
def ofLine (tokens : List Token) (error : SyntaxError) : Incident :=
  ⟨error, if tokens.any fun t => t.kind.isInvalid then .suppressed else .reported⟩

/-- The error, if it is reported. -/
def reported? (i : Incident) : Option SyntaxError :=
  if i.handling = .suppressed then none else some i.error

end Incident

end Gamebook
