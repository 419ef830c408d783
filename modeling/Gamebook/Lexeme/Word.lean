/-
# Gamebook.Lexeme.Word — the words inside a line of code

Each function here looks at the characters from some point on and says how far one word reaches and
what it stands for. None of them depends on what came before.
-/
import Gamebook.Lexeme
import Gamebook.Decimal.Numeral
import Gamebook.Text.Blank

namespace Gamebook.Lexeme

open Gamebook.Text (isBlank)

/-! ## Character classes -/

/-- A decimal digit. -/
def isDigit (c : Char) : Bool := '0' ≤ c && c ≤ '9'

/-- A letter of the basic Latin alphabet or an underscore. -/
def isNameStart (c : Char) : Bool :=
  ('a' ≤ c && c ≤ 'z') || ('A' ≤ c && c ≤ 'Z') || c = '_'

/-- What a variable name goes on with. -/
def isNameChar (c : Char) : Bool := isNameStart c || isDigit c

/-- What a metadata key consists of. -/
def isKeyChar (c : Char) : Bool := isNameChar c || c = '-'

/-- Characters that end a run of unclassified text: the start of some more specific word. -/
def startsWord (c : Char) : Bool :=
  isNameChar c ||
    ['"', '{', '}', '[', ']', '(', ')', '<', '>', '=', '!', '&', '|', '+', '-', '*', '/', '%', '$'].contains c

/-- Whether a character stays on the line. -/
def isInline (c : Char) : Bool := c ≠ '\n'

/-! ## Comments and scripts -/

/-- Splits before the first `a` that is directly followed by `b`. -/
def splitAtPair (a b : Char) : List Char → Option (List Char × List Char)
  | [] => none
  | [_] => none
  | c :: d :: cs =>
    if c = a && d = b then some ([], c :: d :: cs)
    else (splitAtPair a b (d :: cs)).map fun r => (c :: r.1, r.2)

/-- The block comment that `/*` opens, with `cs` after those two characters. -/
def blockComment (cs : List Char) : Lexeme :=
  match splitAtPair '*' '/' cs with
  | some (inside, _) => plain .blockComment ('/' :: '*' :: (inside ++ ['*', '/']))
  | none => faulty .unterminatedComment ('/' :: '*' :: cs)

/-- The script block that `<<` opens, with `cs` after those two characters. -/
def scriptBlock (cs : List Char) : Lexeme :=
  match splitAtPair '>' '>' cs with
  | some (inside, _) => withText .script inside ('<' :: '<' :: (inside ++ ['>', '>']))
  | none => faulty .unterminatedScript ('<' :: '<' :: cs)

/-! ## Strings -/

/-- What a backslash and the character after it stand for in a string. -/
def unescape (c : Char) : List Char :=
  if c = 'n' then ['\n']
  else if c = 't' then ['\t']
  else if c = '"' then ['"']
  else if c = '\\' then ['\\']
  else ['\\', c]

/-- Reads a string after its opening quote: the raw text up to and including the closing quote with
the value, or the raw text up to the end of the line with no value. A backslash that ends the line
belongs to the raw text. -/
def stringBody : List Char → List Char × Option (List Char)
  | [] => ([], none)
  | '\n' :: _ => ([], none)
  | '"' :: _ => (['"'], some [])
  | '\\' :: c :: cs =>
    if c = '\n' then (['\\'], none)
    else
      let (raw, value) := stringBody cs
      ('\\' :: c :: raw, value.map (unescape c ++ ·))
  | c :: cs =>
    let (raw, value) := stringBody cs
    (c :: raw, value.map (c :: ·))

/-- The string that a quote opens, with `cs` after it. -/
def stringWord (cs : List Char) : Lexeme :=
  match stringBody cs with
  | (raw, some value) => withText .string value ('"' :: raw)
  | (raw, none) => faulty .unterminatedString ('"' :: raw)

/-! ## Numbers and names -/

/-- The largest integer literal, `2 ^ 63 - 1`. -/
def maxInteger : Nat := 9223372036854775807

/-- The number at the head of `cs`: digits, and more digits after a point if one follows directly. -/
def numberWord (cs : List Char) : Lexeme :=
  let whole := cs.takeWhile isDigit
  match cs.dropWhile isDigit with
  | '.' :: d :: rest =>
    if isDigit d then
      let fraction := d :: rest.takeWhile isDigit
      withValue .number (.float (Decimal.read whole fraction)) (whole ++ '.' :: fraction)
    else integer whole
  | _ => integer whole
where
  integer (ds : List Char) : Lexeme :=
    let n := Decimal.value ds
    if n ≤ maxInteger then withValue .number (.int (Int64.ofNat n)) ds
    else faulty (.invalidNumber (String.ofList ds)) ds

/-- The words that are no names. -/
def keyword? (word : List Char) : Option TokenKind :=
  if word = ['t', 'r', 'u', 'e'] then some (.boolean true)
  else if word = ['f', 'a', 'l', 's', 'e'] then some (.boolean false)
  else if word = ['a', 'n', 'd'] then some (.operator .and)
  else if word = ['o', 'r'] then some (.operator .or)
  else if word = ['n', 'o', 't'] then some .bang
  else none

/-- The name or keyword at the head of `cs`. -/
def nameWord (cs : List Char) : Lexeme :=
  let word := cs.takeWhile isNameChar
  match keyword? word with
  | some (.boolean b) => withValue (.boolean b) (.bool b) word
  | some kind => plain kind word
  | none => plain .identifier word

/-! ## Passage names and targets -/

/-- The characters up to a line feed, a square bracket, a brace or a comment. -/
def nameRun : List Char → List Char
  | [] => []
  | c :: cs =>
    if c = '\n' || c = '[' || c = '{' then []
    else if c = '/' && (cs.head? = some '/' || cs.head? = some '*') then []
    else c :: nameRun cs

/-- The passage name at the head of `cs`: it may hold blanks and ends in none. -/
def passageName (cs : List Char) : List Char :=
  Text.dropEndWhile isBlank (nameRun cs)

/-! ## Display text of a choice -/

/-- Characters that a backslash quotes in the text of a choice. -/
def isQuotable (c : Char) : Bool := c = ']' || c = '[' || c = '\\'

/-- Reads the text of a choice up to the closing bracket or the end of the line: what was written, and
what it stands for. -/
def displayText : List Char → List Char × List Char
  | [] => ([], [])
  | '\\' :: c :: cs =>
    if isQuotable c then
      let (raw, text) := displayText cs
      ('\\' :: c :: raw, c :: text)
    else
      let (raw, text) := displayText (c :: cs)
      ('\\' :: raw, '\\' :: text)
  | c :: cs =>
    if c = '\n' || c = ']' then ([], [])
    else
      let (raw, text) := displayText cs
      (c :: raw, c :: text)

/-! ## Operators and punctuation -/

/-- The fixed spellings, longer ones before their beginnings. -/
def symbols : List (List Char × TokenKind) := [
  (['{', 'e', 'l', 's', 'e', '}'], .marker .otherwise),
  (['{', '/', '}'], .marker .close),
  (['=', '='], .operator .eq),
  (['!', '='], .operator .ne),
  (['<', '='], .operator .le),
  (['>', '='], .operator .ge),
  (['&', '&'], .operator .and),
  (['|', '|'], .operator .or),
  (['+', '='], .assign .add),
  (['-', '='], .assign .sub),
  (['*', '='], .assign .mul),
  (['/', '='], .assign .div),
  (['{'], .opening .brace),
  (['}'], .closing .brace),
  (['['], .opening .square),
  ([']'], .closing .square),
  (['('], .opening .round),
  ([')'], .closing .round),
  (['<'], .operator .lt),
  (['>'], .operator .gt),
  (['!'], .bang),
  (['+'], .operator .add),
  (['-'], .operator .sub),
  (['*'], .operator .mul),
  (['/'], .operator .div),
  (['%'], .operator .mod),
  (['='], .assign .set),
  (['$'], .dollar)]

/-- The first fixed spelling that `cs` starts with. -/
def symbol? (cs : List Char) : Option (List Char × TokenKind) :=
  symbols.find? fun s => s.1.isPrefixOf cs

/-- Text that is no word: one character and all that follow it up to a blank, the end of the line or
the start of some word. -/
def otherText (c : Char) (cs : List Char) : Lexeme :=
  let raw := c :: cs.takeWhile fun d => !isBlank d && isInline d && !startsWord d
  withText .text raw raw

/-- The bracket depth after a token, when it was `depth` before. -/
def depthAfter (depth : Nat) : TokenKind → Nat
  | .opening _ => depth + 1
  | .closing _ => depth - 1
  | _ => depth

end Gamebook.Lexeme
