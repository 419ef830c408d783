/-
# Gamebook.Story.Render — the canonical text of a story

Metadata first, title and author leading, then the passages, a blank line between the parts: the entry
passage first, the others by name, passages of one name in their order. Bodies of conditionals are
indented by two blanks. A conditional that was never closed stays so.

Prose that would be read as anything else is written after a backslash. So is an empty line of prose,
which would otherwise vanish, and prose that starts with a blank, which would be taken for indentation.
-/
import Gamebook.Story
import Gamebook.Expr.Render
import Gamebook.Text.Blank
import Gamebook.Text.LineBreak

namespace Gamebook

/-! ## Lines -/

/-- A line of text with its line feed. -/
def renderLine (chars : List Char) : List Char := chars ++ ['\n']

/-- The indentation of a body inside `depth` conditionals. -/
def indentation (depth : Nat) : List Char := List.replicate (2 * depth) ' '

/-- The beginnings that prose cannot have without a backslash. -/
def reservedStarts : List (List Char) := [
  [':', ':'], ['$'], ['*'], ['{'], ['@'], ['\\'], ['-', '>'], ['<', '<'], ['/', '/'], ['/', '*'],
  [' '], ['\t']]

/-- Whether a line of prose needs a backslash. -/
def needsBackslash (line : List Char) : Bool :=
  line.isEmpty || reservedStarts.any fun start => start.isPrefixOf line

/-- A line of prose as written. -/
def proseLine (line : List Char) : List Char :=
  let line := Text.trimEnd line
  if needsBackslash line then '\\' :: line else line

/-! ## Statements -/

namespace Choice

/-- A character of the text of a choice as written. -/
def escape (c : Char) : List Char :=
  if c = '[' || c = ']' || c = '\\' then ['\\', c] else [c]

/-- The text of a choice as written between its brackets. -/
def displayChars (text : String) : List Char := (Text.trim text.toList).flatMap escape

/-- A choice as written. -/
def chars (c : Choice) : List Char :=
  let guard :=
    match c.guard with
    | none => []
    | some g => ' ' :: '{' :: (g.chars ++ ['}'])
  let target :=
    match c.target with
    | none => []
    | some t => ' ' :: '-' :: '>' :: ' ' :: t.toList
  '*' :: (guard ++ ' ' :: '[' :: (displayChars c.text ++ ']' :: target))

end Choice

namespace Assignment

/-- An assignment as written. -/
def chars (a : Assignment) : List Char :=
  '$' :: (a.name.toList ++ ' ' :: (a.op.symbol.toList ++ ' ' :: a.value.chars))

end Assignment

mutual

/-- The lines of a statement inside `depth` conditionals. -/
def Node.chars (depth : Nat) : Node → List Char
  | .text content _ =>
    (Text.splitLines content.toList).flatMap fun line =>
      renderLine (indentation depth ++ proseLine line)
  | .choice c => renderLine (indentation depth ++ c.chars)
  | .assignment a => renderLine (indentation depth ++ a.chars)
  | .conditional guard body otherwise _ closing =>
    renderLine (indentation depth ++ '{' :: (guard.chars ++ ['}'])) ++
      Node.charsAll (depth + 1) body ++
      (match otherwise with
        | none => []
        | some branch =>
          renderLine (indentation depth ++ Marker.otherwise.spelling.toList) ++
            Node.charsAll (depth + 1) branch) ++
      (match closing with
        | none => []
        | some _ => renderLine (indentation depth ++ Marker.close.spelling.toList))
  | .script code _ =>
    renderLine (indentation depth ++ '<' :: '<' :: (code.toList ++ ['>', '>']))
  | .divert target _ => renderLine (indentation depth ++ '-' :: '>' :: ' ' :: target.toList)
  | .stray marker _ => renderLine (indentation depth ++ marker.spelling.toList)

/-- The lines of a body inside `depth` conditionals. -/
def Node.charsAll (depth : Nat) : List Node → List Char
  | [] => []
  | n :: ns => n.chars depth ++ Node.charsAll depth ns

end

/-! ## Passages and stories -/

namespace Passage

/-- The tags of a passage between brackets, if there are any. -/
def tagChars (tags : NameSet) : List Char :=
  if tags.isEmpty then []
  else ' ' :: '[' :: ([' '].intercalate (tags.names.map String.toList) ++ [']'])

/-- The line that opens a passage. -/
def headerChars (p : Passage) : List Char :=
  renderLine (':' :: ':' :: ' ' :: (p.name.toList ++ tagChars p.tags))

/-- The lines of a passage. -/
def chars (p : Passage) : List Char := p.headerChars ++ Node.charsAll 0 p.body

/-- Whether a passage may stand before another in a story with the given entry: the entry first, then
by name. -/
def precedes (entry : String) (a b : Passage) : Bool :=
  if a.name = entry then true
  else if b.name = entry then false
  else !(b.name < a.name)

end Passage

namespace Story

/-- A line of metadata. -/
def entryChars (key value : String) : List Char :=
  renderLine ('@' :: (key.toList ++ if value = "" then [] else ' ' :: value.toList))

/-- The lines of metadata. -/
def metadataChars (s : Story) : List Char :=
  (match s.title with
    | none => []
    | some t => entryChars "title" t) ++
  (match s.author with
    | none => []
    | some a => entryChars "author" a) ++
  s.metadata.entries.flatMap fun e => entryChars e.1 e.2

/-- The passages in canonical order. -/
def sorted (s : Story) : List Passage := s.passages.mergeSort (Passage.precedes s.entryName)

/-- The parts of the canonical text that blank lines separate. -/
def parts (s : Story) : List (List Char) :=
  (if s.metadataChars.isEmpty then [] else [s.metadataChars]) ++ s.sorted.map Passage.chars

/-- The characters of the canonical text. A story without metadata and passages is an empty line. -/
def chars (s : Story) : List Char :=
  match s.parts with
  | [] => ['\n']
  | parts => ['\n'].intercalate parts

/-- The canonical text. -/
def render (s : Story) : String := String.ofList s.chars

end Story

end Gamebook
