/-
# Gamebook.Lexeme.Scan — cutting a source text into lexemes

A scanner takes one lexeme after another. Between two lexemes all it remembers is its mode: whether
it stands at the start of a line, inside a line of code, or where a name, a tag, the text of a choice
or a metadata value is due. `step` decides the next lexeme and the next mode from the mode and the
text ahead; `scan` repeats it until the text is used up. Every step takes at least one character, so
`scan` ends.
-/
import Gamebook.Lexeme.Word

namespace Gamebook.Lexeme

open Gamebook.Text (isBlank trimEnd trim)

/-- What kind of line the code belongs to; it decides how a square bracket is read. -/
inductive LineKind where
  | statement
  | passage
  | choice
  deriving DecidableEq, Inhabited

/-- What the scanner remembers inside a line of code. -/
structure CodeState where
  line : LineKind
  /-- The text of the choice has been read. -/
  displayed : Bool
  /-- How many brackets are open. Line breaks inside brackets do not end the line. -/
  depth : Nat
  deriving DecidableEq, Inhabited

/-- What the scanner remembers between two lexemes. -/
inductive Mode where
  | lineStart
  | metaValue
  | code (s : CodeState)
  /-- A passage name or target is due. -/
  | name (s : CodeState)
  /-- Inside the square brackets of a choice. -/
  | display
  /-- Inside the square brackets of a passage line. -/
  | tags
  deriving DecidableEq, Inhabited

/-- The start of the code on a line. -/
def CodeState.begin (line : LineKind) : CodeState := ⟨line, false, 0⟩

/-- The end of a line. -/
def lineFeed : Lexeme := plain .newline ['\n']

/-- A run of blanks from `c` on. -/
def blanks (c : Char) (cs : List Char) : Lexeme := gap (c :: cs.takeWhile isBlank)

/-- The rest of the line from `c` on. -/
def restOfLine (c : Char) (cs : List Char) : List Char := c :: cs.takeWhile isInline

/-- Whether a line that starts with `cs` opens a passage. -/
def opensPassage (cs : List Char) : Bool :=
  [':', ':'].isPrefixOf (cs.dropWhile isBlank)

/-- An operator, a bracket or unclassified text. -/
def symbolStep (s : CodeState) (c : Char) (cs : List Char) : Lexeme × Mode :=
  match symbol? (c :: cs) with
  | some (spelling, kind) =>
    (plain kind spelling, .code { s with depth := depthAfter s.depth kind })
  | none => (otherText c cs, .code s)

/-- The next lexeme inside a line of code. A line break ends the line unless a bracket is open; and
even then if a passage starts after it. -/
def codeStep (s : CodeState) (c : Char) (cs : List Char) : Lexeme × Mode :=
  if isBlank c then (blanks c cs, .code s)
  else if c = '\n' then
    if 0 < s.depth && !opensPassage cs then (gap ['\n'], .code s) else (lineFeed, .lineStart)
  else if c = '/' && cs.head? = some '/' then
    (plain .lineComment (restOfLine c cs), .code s)
  else if c = '/' && cs.head? = some '*' then (blockComment cs.tail, .code s)
  else if c = '<' && cs.head? = some '<' then (scriptBlock cs.tail, .code s)
  else if c = '-' && cs.head? = some '>' then (plain .arrow ['-', '>'], .name s)
  else if c = '"' then (stringWord cs, .code s)
  else if isDigit c then (numberWord (c :: cs), .code s)
  else if isNameStart c then (nameWord (c :: cs), .code s)
  else if c = '[' && s.line = .choice && s.depth = 0 && !s.displayed then
    (plain (.opening .square) ['['], .display)
  else if c = '[' && s.line = .passage && s.depth = 0 then
    (plain (.opening .square) ['['], .tags)
  else symbolStep s c cs

/-- The next lexeme where a passage name is due. Without one the line goes on as code. -/
def nameStep (s : CodeState) (c : Char) (cs : List Char) : Lexeme × Mode :=
  if isBlank c then (blanks c cs, .name s)
  else
    match passageName (c :: cs) with
    | [] => codeStep s c cs
    | word => (plain .identifier word, .code s)

/-- The next lexeme inside the square brackets of a choice. A text of white space alone is a gap. -/
def displayStep (c : Char) (cs : List Char) : Lexeme × Mode :=
  let after : CodeState := { CodeState.begin .choice with displayed := true }
  if c = ']' then (plain (.closing .square) [']'], .code after)
  else
    match displayText (c :: cs) with
    | ([], _) => codeStep after c cs
    | (raw, text) =>
      match trim text with
      | [] => (gap raw, .display)
      | trimmed => (withText .text trimmed raw, .display)

/-- The next lexeme inside the square brackets of a passage line. -/
def tagStep (c : Char) (cs : List Char) : Lexeme × Mode :=
  let after := CodeState.begin .passage
  if isBlank c then (blanks c cs, .tags)
  else if c = '\n' then codeStep after c cs
  else if c = ']' then (plain (.closing .square) [']'], .code after)
  else
    (plain .identifier (c :: cs.takeWhile fun d => !isBlank d && d ≠ ']' && isInline d), .tags)

/-- The next lexeme after a metadata key. -/
def metaStep (c : Char) (cs : List Char) : Lexeme × Mode :=
  if isBlank c then (blanks c cs, .metaValue)
  else if c = '\n' then (lineFeed, .lineStart)
  else
    let raw := restOfLine c cs
    match trimEnd raw with
    | [] => (gap raw, .lineStart)
    | value => (withText .text value raw, .lineStart)

/-- Whether a `*` before `cs` opens a choice rather than prose. -/
def opensChoice (cs : List Char) : Bool :=
  match cs with
  | [] => true
  | d :: _ => isBlank d || d = '[' || d = '{' || d = '\n'

/-- Whether a line that starts with `c` and goes on with `cs` is a line of code. -/
def opensCode (c : Char) (cs : List Char) : Bool :=
  c = '$' || c = '{' || (c = '-' && cs.head? = some '>') || (c = '<' && cs.head? = some '<') ||
    (c = '/' && (cs.head? = some '/' || cs.head? = some '*'))

/-- The next lexeme at the start of a line. What opens nothing else is prose; a backslash makes prose
of anything. -/
def lineStep (c : Char) (cs : List Char) : Lexeme × Mode :=
  if isBlank c then (blanks c cs, .lineStart)
  else if c = '\n' then (lineFeed, .lineStart)
  else if c = ':' && cs.head? = some ':' then
    (plain .passageMarker [':', ':'], .name (.begin .passage))
  else if c = '*' && opensChoice cs then (plain .choiceMarker ['*'], .code (.begin .choice))
  else if opensCode c cs then codeStep (.begin .statement) c cs
  else if c = '@' then
    let key := cs.takeWhile isKeyChar
    (withText .metaKey key ('@' :: key), .metaValue)
  else if c = '\\' then
    let content := cs.takeWhile isInline
    (withText .text (trimEnd content) ('\\' :: content), .lineStart)
  else
    let content := restOfLine c cs
    (withText .text (trimEnd content) content, .lineStart)

/-- The next lexeme and the mode after it, when `c :: cs` lies ahead. -/
def step : Mode → Char → List Char → Lexeme × Mode
  | .lineStart => lineStep
  | .metaValue => metaStep
  | .code s => codeStep s
  | .name s => nameStep s
  | .display => displayStep
  | .tags => tagStep

/-- The lexemes of a text. The lexeme of a step covers its raw text and at least one character. -/
def scan (mode : Mode) : List Char → List Lexeme
  | [] => []
  | c :: cs =>
    let (lexeme, next) := step mode c cs
    lexeme :: scan next (cs.drop (lexeme.raw.length - 1))
termination_by cs => cs.length
decreasing_by
  simp only [List.length_cons, List.length_drop]
  omega

end Gamebook.Lexeme
