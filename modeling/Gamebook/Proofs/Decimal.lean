/-
# Gamebook.Proofs.Decimal — decimals have one text

The canonical text of a story and its Lua module each choose between one decimal and the fewest that read a number
back. The choice in Lua asks for a finite number as well; in the canonical text an infinity is ruled out by its part
after the point, which is not a number. Both come to the same text (`Lua.decimal_eq_chars`), and for a number that is
digits on both sides of a point (`Decimal.chars`).
-/
import Gamebook.Lua.Expr

namespace Gamebook

namespace Decimal

/-- The text of the magnitude `m * 2 ^ e`, with at least one decimal. -/
def magnitude (m : Nat) (e : Int) (tight : Bool) : List Char :=
  if m % Nat.pow 2 (-e).toNat = 0 then wholeDigits m e ++ ['.', '0']
  else
    let (k, d) := Dyadic.shortest ⟨m, (-e).toNat, tight⟩
    positional k d

/-- The text of a float, with at least one decimal. -/
def chars : Float → List Char := signed magnitude

theorem isFinite_of_isWhole {b : Binary64} (h : b.isWhole = true) : b.isFinite = true := by
  cases b with
  | finite => rfl
  | infinite | nan => cases h

theorem ite_isWhole_eq_chars (f : Float) :
    (if isWhole f then oneDecimal f else fewestDecimals f) = chars f := by
  simp only [isWhole, oneDecimal, fewestDecimals, chars, signed]
  cases Binary64.ofFloat f with
  | finite negative m e tight =>
    simp only [Binary64.isWhole, decide_eq_true_eq, magnitude]
    split <;> rfl
  | infinite negative => rfl
  | nan => rfl

end Decimal

theorem Literal.chars_float (f : Float) : (Literal.float f).chars = Decimal.chars f :=
  Decimal.ite_isWhole_eq_chars f

/-- **A decimal is written in Lua as in a source.** -/
theorem Lua.decimal_eq_chars (f : Float) : Lua.decimal f = (Literal.float f).chars := by
  have hguard : (Decimal.isWhole f && (Decimal.Binary64.ofFloat f).isFinite) = Decimal.isWhole f := by
    cases hwhole : Decimal.isWhole f with
    | true => exact Decimal.isFinite_of_isWhole hwhole
    | false => rfl
  rw [Lua.decimal, hguard, Literal.chars]

end Gamebook
