/-
# Gamebook.Diagnostic.Json — diagnostics for other programs
-/
import Gamebook.Diagnostic
import Gamebook.Json

namespace Gamebook

namespace LexicalFault

/-- A lexical fault; an invalid number comes with its digits. -/
def json : LexicalFault → Json
  | unterminatedString => .str "unterminated_string"
  | unterminatedComment => .str "unterminated_block_comment"
  | unterminatedScript => .str "unterminated_script"
  | invalidNumber text => .obj [("invalid_number", .str text)]

end LexicalFault

namespace Code

/-- The name of a code. -/
def kind : Code → String
  | lexical _ => "lexical"
  | syntactic => "syntax"
  | duplicatePassage _ => "duplicate_passage"
  | unknownPassage _ => "unknown_passage"
  | unterminatedConditional => "unterminated_conditional"
  | unmatched .close => "unmatched_close"
  | unmatched .otherwise => "unmatched_else"
  | unreachablePassage _ => "unreachable_passage"
  | missingEntry _ => "missing_entry"
  | unassignedVariable _ => "unassigned_variable"
  | emptyChoiceText => "empty_choice_text"

/-- What a code is about, as a further member. -/
def subject : Code → List (String × Json)
  | lexical fault => [("error", fault.json)]
  | duplicatePassage name | unknownPassage name | unreachablePassage name | missingEntry name
  | unassignedVariable name => [("name", .str name)]
  | syntactic | unterminatedConditional | unmatched _ | emptyChoiceText => []

/-- A code with what it is about. -/
def json (c : Code) : Json := .obj (("kind", .str c.kind) :: c.subject)

end Code

namespace Diagnostic

/-- A member for a text that may be missing. -/
def member (key : String) : Option String → List (String × Json)
  | none => []
  | some s => [(key, .str s)]

/-- The members of a diagnostic. -/
def members (d : Diagnostic) : List (String × Json) :=
  [("severity", .str d.severity.text), ("code", d.code.json), ("message", .str d.message),
    ("line", .num d.pos.line), ("column", .num d.pos.column)] ++
    (member "suggestion" d.suggestion ++ member "snippet" d.snippet)

/-- A diagnostic. -/
def json (d : Diagnostic) : Json := .obj d.members

end Diagnostic

end Gamebook
