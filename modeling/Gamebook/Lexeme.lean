/-
# Gamebook.Lexeme — the pieces a source text is cut into

A normal source text is cut without loss into lexemes: tokens, faults and the gaps between them. A
lexeme knows its raw text and nothing of its place; places follow from the raw texts before it. So
the text is the concatenation of the raw texts, and the places of tokens are exact, whatever rules
decide where the cuts fall.
-/
import Gamebook.Token

namespace Gamebook

/-- What can be wrong with a stretch of text before any grammar is looked at. -/
inductive LexicalFault where
  /-- A string that its line does not close. -/
  | unterminatedString
  /-- A `/*` without its `*/`. -/
  | unterminatedComment
  /-- A `<<` without its `>>`. -/
  | unterminatedScript
  /-- An integer that does not fit in 64 bits. -/
  | invalidNumber (text : String)
  deriving DecidableEq, Inhabited

namespace LexicalFault

/-- The wording of a fault. -/
def message : LexicalFault → String
  | unterminatedString => "unterminated string literal"
  | unterminatedComment => "unterminated block comment"
  | unterminatedScript => "unterminated embedded script block, expected '>>'"
  | invalidNumber text => "number literal out of range: " ++ text

/-- Whether the fault is a missing end. -/
def isUnterminated : LexicalFault → Bool
  | invalidNumber _ => false
  | _ => true

end LexicalFault

/-- A fault and the place where its text starts. -/
structure LexicalError where
  fault : LexicalFault
  pos : Position
  deriving DecidableEq, Inhabited

namespace LexicalError

/-- The wording with the place. -/
def message (e : LexicalError) : String := e.fault.message ++ e.pos.suffix

end LexicalError

/-- What a lexeme stands for. -/
inductive LexemeSort where
  | gap
  | token (kind : TokenKind) (value : Option Literal)
  | fault (fault : LexicalFault)

/-- A piece of a source text. -/
structure Lexeme where
  sort : LexemeSort
  raw : List Char

namespace Lexeme

/-- A piece that separates tokens. -/
def gap (raw : List Char) : Lexeme := ⟨.gap, raw⟩

/-- A token that carries no value. -/
def plain (kind : TokenKind) (raw : List Char) : Lexeme := ⟨.token kind none, raw⟩

/-- A token that carries a text. -/
def withText (kind : TokenKind) (text raw : List Char) : Lexeme :=
  ⟨.token kind (some (.str (String.ofList text))), raw⟩

/-- A token that carries a literal. -/
def withValue (kind : TokenKind) (value : Literal) (raw : List Char) : Lexeme :=
  ⟨.token kind (some value), raw⟩

/-- A piece that is no word of the language. -/
def faulty (fault : LexicalFault) (raw : List Char) : Lexeme := ⟨.fault fault, raw⟩

/-- The token of a lexeme that starts at `pos`. A fault becomes a token that carries its message. -/
def token? (l : Lexeme) (pos : Position) : Option Token :=
  match l.sort with
  | .gap => none
  | .token kind value => some ⟨kind, value, pos, String.ofList l.raw⟩
  | .fault fault => some ⟨.invalid fault.message, none, pos, String.ofList l.raw⟩

/-- The error of a lexeme that starts at `pos`. -/
def error? (l : Lexeme) (pos : Position) : Option LexicalError :=
  match l.sort with
  | .fault fault => some ⟨fault, pos⟩
  | _ => none

/-- The tokens of consecutive lexemes, the first of which starts at `pos`, and the end of input. -/
def tokens : Position → List Lexeme → List Token
  | pos, [] => [⟨.endOfInput, none, pos, ""⟩]
  | pos, l :: ls => (l.token? pos).toList ++ tokens (pos.advance l.raw) ls

/-- The errors of consecutive lexemes, the first of which starts at `pos`. -/
def errors : Position → List Lexeme → List LexicalError
  | _, [] => []
  | pos, l :: ls => (l.error? pos).toList ++ errors (pos.advance l.raw) ls

end Lexeme

end Gamebook
