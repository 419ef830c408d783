/-
# Gamebook.Decimal.Binary64 — the exact value of a decimal literal

A finite binary64 number is `± significand · 2 ^ exponent` with natural `significand` and integer
`exponent`. Printing works on these three numbers in exact arithmetic; no floating-point operation
takes part in it.
-/

namespace Gamebook.Decimal

/-- A binary64 number taken apart. -/
inductive Binary64 where
  /-- The number `± significand * 2 ^ exponent`. `tight` says that the next smaller magnitude is only
  half as far away as the next larger one, as it is at a power of two. -/
  | finite (negative : Bool) (significand : Nat) (exponent : Int) (tight : Bool)
  | infinite (negative : Bool)
  | nan
  deriving DecidableEq, Inhabited

namespace Binary64

/-- The exponent of the smallest positive number, `2 ^ (-1074)`. -/
def leastExponent : Int := -1074

/-- The place value of the lowest exponent bit, `2 ^ 52`. -/
def hidden : Nat := 0x10000000000000

/-- Reads the sign bit, the eleven exponent bits and the fifty-two fraction bits. -/
def ofBits (bits : Nat) : Binary64 :=
  let negative := bits / (hidden * 2048) % 2 = 1
  let field := bits / hidden % 2048
  let fraction := bits % hidden
  if field = 2047 then
    if fraction = 0 then infinite negative else nan
  else if field = 0 then
    finite negative fraction leastExponent false
  else
    finite negative (hidden + fraction) (leastExponent + (field - 1 : Nat))
      (fraction = 0 && 1 < field)

/-- The parts of a float. -/
def ofFloat (f : Float) : Binary64 := ofBits f.toBits.toNat

/-- Whether this is a number. -/
def isFinite : Binary64 → Bool
  | finite .. => true
  | infinite _ | nan => false

/-- Whether the part after the point is zero. The one of an infinity is not a number. -/
def isWhole : Binary64 → Bool
  | finite _ significand exponent _ => significand % Nat.pow 2 (-exponent).toNat = 0
  | infinite _ | nan => false

end Binary64

end Gamebook.Decimal
