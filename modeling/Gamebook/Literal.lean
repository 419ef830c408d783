/-
# Gamebook.Literal — constant values

The four kinds of constant a story script can write: 64-bit integers, binary64 decimals, strings and
truth values.
-/

namespace Gamebook

/-- A constant value. -/
inductive Literal where
  | int (value : Int64)
  | float (value : Float)
  | str (value : String)
  | bool (value : Bool)
  deriving DecidableEq, Inhabited

namespace Literal

/-- Equality of the values: decimals compare as numbers, so `0.0` agrees with `-0.0` and a NaN agrees
with nothing, itself included. -/
def agrees : Literal → Literal → Bool
  | int a, int b => a = b
  | float a, float b => a == b
  | str a, str b => a = b
  | bool a, bool b => a = b
  | _, _ => false

end Literal

end Gamebook
