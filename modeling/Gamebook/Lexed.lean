/-
# Gamebook.Lexed — the tokens of a source text

Cutting never stops at a fault: the result has every token, with faults among them as invalid tokens,
and beside it every fault with its place.
-/
import Gamebook.Lexeme.Scan
import Gamebook.Text.LineBreak

namespace Gamebook

/-- The tokens of a source text, ending in the end of input, and its lexical errors in order. -/
structure Lexed where
  tokens : List Token
  errors : List LexicalError

namespace Lexed

/-- The lexemes of a source text. -/
def lexemes (source : String) : List Lexeme :=
  Lexeme.scan .lineStart (Text.normalChars source)

/-- Cuts a source text into tokens. -/
def ofSource (source : String) : Lexed :=
  let pieces := lexemes source
  ⟨Lexeme.tokens .start pieces, Lexeme.errors .start pieces⟩

end Lexed

end Gamebook
