/-
# Gamebook.Json — JSON text

JSON values with their text laid out over several lines: two blanks a level, a line for each member,
empty lists and objects on one line. In strings only what must be escaped is escaped.
-/
import Gamebook.Decimal.Numeral

namespace Gamebook

/-- The JSON values that reports are made of. -/
inductive Json where
  | num (n : Nat)
  | str (s : String)
  | arr (items : List Json)
  | obj (members : List (String × Json))
  deriving Inhabited

namespace Json

/-- A hexadecimal digit. -/
def hexDigit (n : Nat) : Char :=
  if n < 10 then Char.ofNat (48 + n) else Char.ofNat (87 + n)

/-- A character inside a string. -/
def escaped (c : Char) : List Char :=
  match c with
  | '"' => ['\\', '"']
  | '\\' => ['\\', '\\']
  | '\x08' => ['\\', 'b']
  | '\t' => ['\\', 't']
  | '\n' => ['\\', 'n']
  | '\x0c' => ['\\', 'f']
  | '\r' => ['\\', 'r']
  | c =>
    if c.toNat < 32 then ['\\', 'u', '0', '0', hexDigit (c.toNat / 16), hexDigit (c.toNat % 16)]
    else [c]

/-- A string with its quotes. -/
def quoted (s : String) : List Char := '"' :: (s.toList.flatMap escaped ++ ['"'])

/-- A line break and the blanks of a level. -/
def newline (depth : Nat) : List Char := '\n' :: List.replicate (2 * depth) ' '

mutual

/-- The text of a value that starts on a line of the given level. -/
def chars (depth : Nat) : Json → List Char
  | num n => Decimal.digits n
  | str s => quoted s
  | arr items =>
    if items.isEmpty then ['[', ']']
    else '[' :: (itemChars (depth + 1) items ++ (newline depth ++ [']']))
  | obj members =>
    if members.isEmpty then ['{', '}']
    else '{' :: (memberChars (depth + 1) members ++ (newline depth ++ ['}']))

/-- The items of a list, each on a line of its own. -/
def itemChars (depth : Nat) : List Json → List Char
  | [] => []
  | j :: js =>
    newline depth ++ (j.chars depth ++ ((if js.isEmpty then [] else [',']) ++ itemChars depth js))

/-- The members of an object, each on a line of its own. -/
def memberChars (depth : Nat) : List (String × Json) → List Char
  | [] => []
  | (key, j) :: ms =>
    newline depth ++ (quoted key ++ (':' :: ' ' :: (j.chars depth ++
      ((if ms.isEmpty then [] else [',']) ++ memberChars depth ms))))

end

/-- The text of a value. -/
def render (j : Json) : String := String.ofList (j.chars 0)

end Json

end Gamebook
