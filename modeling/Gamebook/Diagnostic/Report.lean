/-
# Gamebook.Diagnostic.Report — diagnostics as text

A diagnostic is shown with its place, the source line, a caret under the place and the hint. The caret
line keeps the tabs of the source line, so that the caret stands right however wide they are shown.
-/
import Gamebook.Diagnostic
import Gamebook.Text.LineBreak

namespace Gamebook

/-- The name of an input in messages. -/
def displayName (name : String) : String := if name = "" then "<input>" else name

namespace Diagnostic

/-- The line under a source line with a caret in the given column. -/
def caretLine (line : String) (column : Nat) : String :=
  String.ofList ((line.toList.take (column - 1)).map (fun c => if c = '\t' then '\t' else ' ') ++ ['^'])

/-- The source line and the caret under it. -/
def excerpt (normal : String) (pos : Position) : String :=
  match Text.line? normal pos.line with
  | none => ""
  | some line => "\n" ++ line ++ "\n" ++ caretLine line pos.column

/-- A diagnostic about a source text, over several lines. -/
def format (d : Diagnostic) (source name : String) : String :=
  d.severity.text ++ ": " ++ d.message ++ "\n --> " ++ displayName name ++ ":" ++
    toString d.pos.line ++ ":" ++ toString d.pos.column ++
    excerpt (Text.normalize source) d.pos ++
    match d.suggestion with
    | none => ""
    | some hint => "\n = help: " ++ hint

/-- A count with its noun. -/
def counted (n : Nat) (noun : String) : String :=
  toString n ++ " " ++ noun ++ if n = 1 then "" else "s"

/-- How many errors and warnings there are. -/
def summarize (ds : List Diagnostic) : String :=
  let errors := ds.countP isError
  let warnings := ds.length - errors
  if errors = 0 && warnings = 0 then "no problems found"
  else counted errors "error" ++ ", " ++ counted warnings "warning"

/-- The diagnostics with their source lines where there are none yet. -/
def attachSnippets (ds : List Diagnostic) (source : String) : List Diagnostic :=
  let lines := Text.lines (Text.normalize source)
  ds.map fun d =>
    match d.snippet, d.pos.line with
    | none, n + 1 => { d with snippet := lines[n]? }
    | _, _ => d

end Diagnostic

end Gamebook
