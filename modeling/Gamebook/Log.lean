/-
# Gamebook.Log — what the stages say about their work

Each stage can say what it did. What it says follows from its result, so the stages themselves stay
free of it: the functions here read the lines off the results.
-/
import Gamebook.Diagnostic.Report
import Gamebook.Story.Read
import Gamebook.Story.Simplify
import Gamebook.Lua.Module

namespace Gamebook

/-- How much a line of the log matters, the least first. -/
inductive LogLevel where
  | trace
  | debug
  | info
  | warn
  | error
  deriving DecidableEq, Inhabited

namespace LogLevel

/-- The word for a level. -/
def text : LogLevel → String
  | trace => "trace"
  | debug => "debug"
  | info => "info"
  | warn => "warn"
  | error => "error"

/-- The place of a level in the order. -/
def weight : LogLevel → Nat
  | trace => 0
  | debug => 1
  | info => 2
  | warn => 3
  | error => 4

end LogLevel

/-- A line of the log. -/
structure LogLine where
  level : LogLevel
  message : String
  deriving DecidableEq, Inhabited

namespace LogLine

/-- A line of the log as shown. -/
def text (l : LogLine) : String := "[" ++ l.level.text ++ "] " ++ l.message

end LogLine

namespace LexicalError

/-- What is said about a lexical error. -/
def logLine (e : LexicalError) : LogLine :=
  ⟨.trace, "lex error at " ++ toString e.pos.line ++ ":" ++ toString e.pos.column ++ ": " ++
    e.fault.message⟩

end LexicalError

namespace Lexed

/-- What is said about cutting a text into tokens. -/
def log (l : Lexed) (name : String) : List LogLine :=
  l.errors.map LexicalError.logLine ++
    [⟨.debug, displayName name ++ ": lexed " ++ toString l.tokens.length ++ " tokens, " ++
      toString l.errors.length ++ " lexical errors"⟩]

end Lexed

namespace Incident

/-- What is said about an incident. -/
def logLine? (i : Incident) : Option LogLine :=
  match i.handling with
  | .reported => some ⟨.trace, "syntax error: " ++ i.error.message⟩
  | .suppressed =>
    some ⟨.trace, "suppressed syntax error on a line with a lexical error: " ++ i.error.message⟩
  | .structural => none

end Incident

namespace Reading

/-- What is said while a story is read. -/
def trace (r : Reading) : List LogLine := r.incidents.filterMap Incident.logLine?

/-- What is said while and after a story is read. -/
def log (r : Reading) (name : String) : List LogLine :=
  r.trace ++
    [⟨.debug, displayName name ++ ": parsed " ++ toString r.story.passages.length ++ " passages, " ++
      toString r.errors.length ++ " syntax errors"⟩]

end Reading

namespace Diagnostic

/-- What is said about a diagnostic. -/
def logLine? (d : Diagnostic) : Option LogLine :=
  match d.code with
  | .unknownPassage name =>
    some ⟨.trace, "unknown passage '" ++ name ++ "' at line " ++ toString d.pos.line⟩
  | _ => none

end Diagnostic

namespace Removal

/-- What is said about something that simplifying removes. -/
def logLine : Removal → LogLine
  | constantBranch guard pos =>
    ⟨.trace, "removed always-" ++ (if guard then "true" else "false") ++ " conditional at line " ++
      toString pos.line⟩
  | deadChoice pos => ⟨.trace, "removed never-available choice at line " ++ toString pos.line⟩

end Removal

namespace Story

/-- What is said while a story is read from a source text without errors. Reading ends at a lexical
error. -/
def readLog (source : String) : List LogLine :=
  let lexed := Lexed.ofSource source
  lexed.log "" ++ if lexed.errors.isEmpty then (ofTokens lexed.tokens).trace else []

/-- What is said about the reports `ds` on a story. -/
def validateLog (s : Story) (ds : List Diagnostic) : List LogLine :=
  ds.filterMap Diagnostic.logLine? ++
    [⟨.debug, "validated " ++ toString s.passages.length ++ " passages: " ++ toString ds.length ++
      " diagnostics"⟩]

/-- What is said about simplifying a story. -/
def simplifyLog (s : Story) : List LogLine :=
  s.removals.map Removal.logLine ++ [⟨.debug, "optimized story"⟩]

end Story

namespace Lua

/-- What is said about the module of a story. -/
def log (s : Story) (text : String) : LogLine :=
  ⟨.debug, "generated " ++ toString s.passages.length ++ " passage routines, " ++
    toString text.utf8ByteSize ++ " bytes"⟩

end Lua

end Gamebook
