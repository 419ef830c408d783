/-
# Gamebook.Diagnostic — reports to the author

A diagnostic is one thing worth telling the author: how bad it is, a code that says what it is, a
message, a place, and perhaps a hint and the source line. Errors keep a story from being compiled,
warnings do not.
-/
import Gamebook.Lexeme
import Gamebook.SyntaxError

namespace Gamebook

/-- How bad a diagnostic is. -/
inductive Severity where
  | warning
  | error
  deriving DecidableEq, Inhabited

/-- The word for a severity. -/
def Severity.text : Severity → String
  | warning => "warning"
  | error => "error"

/-- The stage that a diagnostic comes from. -/
inductive Category where
  | lexical
  | syntactic
  | semantic
  deriving DecidableEq, Inhabited

/-- What a diagnostic is about. -/
inductive Code where
  | lexical (fault : LexicalFault)
  | syntactic
  | duplicatePassage (name : String)
  | unknownPassage (name : String)
  | unterminatedConditional
  | unmatched (marker : Marker)
  | unreachablePassage (name : String)
  | missingEntry (name : String)
  | unassignedVariable (name : String)
  | emptyChoiceText
  deriving DecidableEq, Inhabited

/-- The stage that a code belongs to. -/
def Code.category : Code → Category
  | lexical _ => .lexical
  | syntactic => .syntactic
  | _ => .semantic

/-- One report to the author. -/
structure Diagnostic where
  severity : Severity
  code : Code
  message : String
  pos : Position
  suggestion : Option String
  snippet : Option String
  deriving DecidableEq, Inhabited

namespace Diagnostic

/-- An error without hint and source line. -/
def error (code : Code) (pos : Position) (message : String) : Diagnostic :=
  ⟨.error, code, message, pos, none, none⟩

/-- A warning without hint and source line. -/
def warning (code : Code) (pos : Position) (message : String) : Diagnostic :=
  ⟨.warning, code, message, pos, none, none⟩

/-- Whether a diagnostic is an error. -/
def isError (d : Diagnostic) : Bool := d.severity = .error

/-- Whether some diagnostic is an error. -/
def hasErrors (ds : List Diagnostic) : Bool := ds.any isError

/-- A diagnostic on one line. -/
def text (d : Diagnostic) : String := d.severity.text ++ ": " ++ d.message ++ d.pos.suffix

/-- The report of a lexical error. -/
def ofLexical (e : LexicalError) : Diagnostic := error (.lexical e.fault) e.pos e.fault.message

/-- The report of a syntax error. -/
def ofSyntactic (e : SyntaxError) : Diagnostic := error .syntactic e.pos e.fault.message

end Diagnostic

end Gamebook
