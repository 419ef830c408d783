/-
# Gamebook.Text.LineBreak — line terminators and lines

Source texts may end their lines with a line feed, a carriage return or both, and may start with a
byte order mark. `normalize` brings them to line feeds alone; everything later works on the normal
form. `lines` cuts a normal text at its line feeds: there is always one line more than line feeds.
-/

namespace Gamebook.Text

/-- Goes on replacing `old` by `new`. The first `past` characters belong to what has just been replaced. -/
def replaceAfter (old new : List Char) : (past : Nat) → List Char → List Char
  | _, [] => []
  | past + 1, _ :: cs => replaceAfter old new past cs
  | 0, c :: cs =>
    if old.isPrefixOf (c :: cs) then new ++ replaceAfter old new (old.length - 1) cs
    else c :: replaceAfter old new 0 cs

/-- A text with every occurrence of `old`, looked for from left to right, replaced by `new`. -/
def replace (old new cs : List Char) : List Char := replaceAfter old new 0 cs

/-- The text without one byte order mark at its start. -/
def dropMark : List Char → List Char
  | [] => []
  | c :: cs => if c = '\uFEFF' then cs else c :: cs

/-- The characters of a source text with the byte order mark dropped and line feeds as the only line
terminators: pairs of a carriage return and a line feed are replaced first, and then what is left of carriage
returns. -/
def normalChars (source : String) : List Char :=
  replace ['\r'] ['\n'] (replace ['\r', '\n'] ['\n'] (dropMark source.toList))

/-- The normal form of a source text. -/
def normalize (source : String) : String :=
  String.ofList (normalChars source)

/-- The pieces between line feeds. -/
def splitLines : List Char → List (List Char)
  | [] => [[]]
  | c :: cs =>
    match c, splitLines cs with
    | '\n', rest => [] :: rest
    | c, [] => [[c]]
    | c, line :: rest => (c :: line) :: rest

/-- The lines of a text, without their line feeds. -/
def lines (text : String) : List String :=
  (splitLines text.toList).map String.ofList

/-- The line with the given number, counted from one. -/
def line? (text : String) (number : Nat) : Option String :=
  match number with
  | 0 => none
  | n + 1 => (lines text)[n]?

end Gamebook.Text
