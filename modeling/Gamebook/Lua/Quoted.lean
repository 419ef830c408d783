/-
# Gamebook.Lua.Quoted — strings in Lua

A double-quoted Lua string that stands for exactly the given text. Quotes, backslashes and the usual
controls have their short escapes; other controls are written by number, those of ASCII in decimal
with three digits, so that a digit after them is not taken for a part of the number, the rest in
hexadecimal between braces.
-/

namespace Gamebook.Lua

/-- The general category `Cc`. -/
def isControl (c : Char) : Bool :=
  c.toNat < 0x20 || (0x7F ≤ c.toNat && c.toNat ≤ 0x9F)

/-- A hexadecimal digit. -/
def hexDigit (n : Nat) : Char :=
  if n < 10 then Char.ofNat ('0'.toNat + n) else Char.ofNat ('A'.toNat + (n - 10))

/-- A decimal escape with three digits. -/
def decimalEscape (n : Nat) : List Char :=
  '\\' :: (Nat.toDigits 10 n).leftpad 3 '0'

/-- A hexadecimal escape between braces; the controls that need it have two digits. -/
def hexEscape (n : Nat) : List Char :=
  ['\\', 'u', '{', hexDigit (n / 16), hexDigit (n % 16), '}']

/-- A character as written between the quotes. -/
def escape (c : Char) : List Char :=
  if c = '\\' then ['\\', '\\']
  else if c = '"' then ['\\', '"']
  else if c = '\n' then ['\\', 'n']
  else if c = '\r' then ['\\', 'r']
  else if c = '\t' then ['\\', 't']
  else if isControl c then
    if c.toNat < 0x80 then decimalEscape c.toNat else hexEscape c.toNat
  else [c]

/-- A string with its quotes. -/
def quoted (s : String) : List Char :=
  '"' :: (s.toList.flatMap escape ++ ['"'])

end Gamebook.Lua
