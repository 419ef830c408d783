/-
# Gamebook.Line — the tokens of one logical line

Statements are read line by line. A reader looks at the tokens left on the line and either fails or
returns a value with the tokens after it; it never looks beyond the line. What ends the line matters
to it only as the place of an error and as what a message says was found there.
-/
import Gamebook.Token
import Gamebook.SyntaxError

namespace Gamebook

/-- What ends a line: its place, and its description if it is more than the end of the line. -/
structure LineEnd where
  pos : Position
  found : Option String
  deriving DecidableEq, Inhabited

/-- A logical line: its tokens and what ends it. -/
structure Line where
  tokens : List Token
  stop : LineEnd
  deriving DecidableEq, Inhabited

/-- Reads a value from the tokens left on a line. -/
abbrev LineReader (α : Type) := List Token → Except SyntaxError (α × List Token)

namespace LineEnd

/-- The place of the next token. -/
def here (stop : LineEnd) : List Token → Position
  | [] => stop.pos
  | t :: _ => t.pos

/-- What a message says was found. -/
def next (stop : LineEnd) : List Token → Option String
  | [] => stop.found
  | t :: _ => some t.describe

/-- A failure at the next token. -/
def fail {α : Type} (stop : LineEnd) (ts : List Token) (fault : SyntaxFault) : Except SyntaxError α :=
  .error ⟨fault, stop.here ts⟩

/-- A failure that tells what was found. -/
def missing {α : Type} (stop : LineEnd) (ts : List Token) (fault : Option String → SyntaxFault) :
    Except SyntaxError α :=
  stop.fail ts (fault (stop.next ts))

/-- Takes the next token if it is of the given kind. -/
def expect (stop : LineEnd) (kind : TokenKind) (what : Expectation) : LineReader Unit
  | t :: ts => if t.kind = kind then .ok ((), ts) else stop.missing (t :: ts) (.expected what)
  | [] => stop.missing [] (.expected what)

/-- Fails unless the line is used up. -/
def expectEnd (stop : LineEnd) : List Token → Except SyntaxError Unit
  | [] => .ok ()
  | t :: ts => stop.missing (t :: ts) (.expected .lineEnd)

/-- Takes a name. -/
def expectName (stop : LineEnd) (fault : Option String → SyntaxFault) : LineReader String
  | t :: ts => if t.kind = .identifier then .ok (t.raw, ts) else stop.missing (t :: ts) fault
  | [] => stop.missing [] fault

end LineEnd

end Gamebook
