/-
# Gamebook.Token — the words of a story script

A token is a kind, the value it carries, the raw text it covers and the place where that text starts.
Comments are tokens too (`TokenKind.isTrivia`); readers drop them. A stretch of text that is no word
of the language becomes a token of kind `TokenKind.invalid`, which carries the message of its fault.
-/
import Gamebook.Position
import Gamebook.Operator
import Gamebook.Literal

namespace Gamebook

/-- The kinds of token. -/
inductive TokenKind where
  /-- The `::` that opens a passage. -/
  | passageMarker
  /-- A metadata key with its `@`; the value is the key alone. -/
  | metaKey
  /-- The `*` that opens a choice. -/
  | choiceMarker
  /-- A variable name, a passage name or a tag. -/
  | identifier
  | number
  | string
  | boolean (value : Bool)
  /-- Prose, the display text of a choice, or a run that no other rule takes. -/
  | text
  /-- The `$` before a variable name. -/
  | dollar
  /-- The `->` before a target. -/
  | arrow
  | opening (bracket : Bracket)
  | closing (bracket : Bracket)
  | marker (marker : Marker)
  | operator (op : BinaryOp)
  /-- `!` or `not`. -/
  | bang
  | assign (op : AssignOp)
  /-- A `<< … >>` block; the value is what stands between the angles. -/
  | script
  | lineComment
  | blockComment
  | newline
  | invalid (message : String)
  | endOfInput
  deriving DecidableEq, Inhabited

namespace TokenKind

/-- Comments carry no grammar. -/
def isTrivia : TokenKind → Bool
  | lineComment | blockComment => true
  | _ => false

/-- Whether the kind marks a stretch that is no word of the language. -/
def isInvalid : TokenKind → Bool
  | invalid _ => true
  | _ => false

/-- The words for a kind in messages. -/
def description : TokenKind → String
  | passageMarker => "'::'"
  | metaKey => "metadata key"
  | choiceMarker => "'*'"
  | identifier => "identifier"
  | number => "number"
  | string => "string"
  | boolean true => "'true'"
  | boolean false => "'false'"
  | text => "text"
  | dollar => "'$'"
  | arrow => "'->'"
  | opening .brace => "'\x7b'"
  | opening .square => "'['"
  | opening .round => "'('"
  | closing .brace => "'\x7d'"
  | closing .square => "']'"
  | closing .round => "')'"
  | marker m => "'" ++ m.spelling ++ "'"
  | operator op => "'" ++ op.symbol ++ "'"
  | bang => "'!'"
  | assign op => "'" ++ op.symbol ++ "'"
  | script => "embedded script"
  | lineComment | blockComment => "comment"
  | newline => "end of line"
  | invalid _ => "invalid token"
  | endOfInput => "end of input"

end TokenKind

/-- A word of a story script with the place where its raw text starts. -/
structure Token where
  kind : TokenKind
  value : Option Literal
  pos : Position
  raw : String
  deriving DecidableEq, Inhabited

namespace Token

/-- The number of characters the token covers. -/
def length (t : Token) : Nat := t.raw.length

/-- The words for a token in messages: kinds that stand for many texts show theirs. -/
def describe (t : Token) : String :=
  match t.kind with
  | .identifier | .number | .text | .string => t.kind.description ++ " '" ++ t.raw ++ "'"
  | _ => t.kind.description

/-- The text a token stands for: its string value, or else what was written. -/
def content (t : Token) : String :=
  match t.value with
  | some (.str s) => s
  | _ => t.raw

end Token

end Gamebook
