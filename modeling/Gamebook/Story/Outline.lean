/-
# Gamebook.Story.Outline — from tokens to lines and sections

Before any statement is read, the tokens are laid out: comments are dropped, reading ends at the first
end of input, passage markers cut the tokens into a preamble and sections, and line breaks cut both
into lines. A section is what belongs to one passage marker: the rest of its line, which is the header,
and the lines up to the next marker. Nothing read later crosses these cuts.
-/
import Gamebook.Line

namespace Gamebook

/-- What belongs to one passage marker. -/
structure Section where
  /-- The place of the marker. -/
  pos : Position
  header : Line
  body : List Line
  deriving DecidableEq, Inhabited

/-- The lines before the first passage marker, and the sections. -/
structure Outline where
  preamble : List Line
  sections : List Section
  deriving DecidableEq, Inhabited

namespace Outline

/-- The layout of some last part of the tokens. Its first line may be the end of a line that began
before that part. -/
structure Tail where
  line : Line
  more : List Line
  sections : List Section

/-- The layout of nothing, before an end at the given place. -/
def Tail.atEnd (pos : Position) : Tail := ⟨⟨[], ⟨pos, none⟩⟩, [], []⟩

/-- The layout with one more token in front. -/
def Tail.push (tail : Tail) (t : Token) : Tail :=
  match t.kind with
  | .newline => ⟨⟨[], ⟨t.pos, none⟩⟩, tail.line :: tail.more, tail.sections⟩
  | .passageMarker =>
    ⟨⟨[], ⟨t.pos, some t.describe⟩⟩, [], ⟨t.pos, tail.line, tail.more⟩ :: tail.sections⟩
  | _ => { tail with line := { tail.line with tokens := t :: tail.line.tokens } }

/-- The layout of tokens that end at the given place. -/
def layout (ending : Position) (tokens : List Token) : Tail :=
  tokens.foldr (fun t tail => tail.push t) (Tail.atEnd ending)

/-- Whether a token is the end of input. -/
def isEnd (t : Token) : Bool := t.kind = .endOfInput

/-- Where reading ends: at the end of input; without one, at the last token. -/
def ending (tokens : List Token) : Position :=
  match tokens.find? isEnd with
  | some t => t.pos
  | none =>
    match tokens.getLast? with
    | some t => t.pos
    | none => .start

/-- The outline of a list of tokens, of whatever origin. -/
def ofTokens (tokens : List Token) : Outline :=
  let words := tokens.filter fun t => !t.kind.isTrivia
  let tail := layout (ending words) (words.takeWhile fun t => !isEnd t)
  ⟨tail.line :: tail.more, tail.sections⟩

end Outline

end Gamebook
