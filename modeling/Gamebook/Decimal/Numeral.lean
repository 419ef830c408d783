/-
# Gamebook.Decimal.Numeral — decimals as text

Numerals are positional, without an exponent. `oneDecimal` shows all the digits of a whole number and `.0`;
`fewestDecimals` shows no more decimals than it takes to read the number back, and none and no point for a whole
number. Infinities and the NaN have words.

Reading takes digits on both sides of a point and rounds to the nearest binary64 number, to infinity
when there is none near.
-/
import Gamebook.Decimal.Binary64
import Gamebook.Decimal.Shortest

namespace Gamebook.Decimal

/-- The digits of a natural number. -/
def digits (n : Nat) : List Char := Nat.toDigits 10 n

/-- The digits of `n / 10 ^ k`, with exactly `k` digits after the point. -/
def positional (k n : Nat) : List Char :=
  let unit := Nat.pow 10 k
  digits (n / unit) ++ '.' :: (digits (n % unit)).leftpad k '0'

/-- The digits of `m * 2 ^ e` before the point. -/
def wholeDigits (m : Nat) (e : Int) : List Char :=
  digits (m * Nat.pow 2 e.toNat / Nat.pow 2 (-e).toNat)

/-- The minus sign of a negative number. -/
def sign (negative : Bool) : List Char := if negative then ['-'] else []

/-- The text of a float, given that of the magnitudes `m * 2 ^ e`. -/
def signed (magnitude : (m : Nat) → (e : Int) → (tight : Bool) → List Char) (f : Float) : List Char :=
  match Binary64.ofFloat f with
  | .finite negative m e tight => sign negative ++ magnitude m e tight
  | .infinite negative => sign negative ++ ['i', 'n', 'f']
  | .nan => ['N', 'a', 'N']

/-- Whether the part after the point is zero. -/
def isWhole (f : Float) : Bool := (Binary64.ofFloat f).isWhole

/-- The text of a whole number with one decimal. -/
def oneDecimal : Float → List Char := signed fun m e _ => wholeDigits m e ++ ['.', '0']

/-- The text of a float with the fewest decimals. -/
def fewestDecimals : Float → List Char := signed fun m e tight =>
  if m % Nat.pow 2 (-e).toNat = 0 then wholeDigits m e
  else
    let (k, d) := Dyadic.shortest ⟨m, (-e).toNat, tight⟩
    positional k d

/-- The decimal digits of an integer, after a minus sign if it is negative. -/
def integer (n : Int64) : List Char :=
  sign (n < 0) ++ digits n.toInt.natAbs

/-- The value of a run of digits. -/
def value (ds : List Char) : Nat :=
  ds.foldl (fun n c => 10 * n + (c.toNat - '0'.toNat)) 0

/-- The float nearest to `whole.fraction`. -/
def read (whole fraction : List Char) : Float :=
  Float.ofScientific (value (whole ++ fraction)) true fraction.length

end Gamebook.Decimal
