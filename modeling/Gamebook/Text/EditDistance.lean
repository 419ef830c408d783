/-
# Gamebook.Text.EditDistance — how far two texts are apart

The edit distance counts the characters to insert, delete or replace to turn one text into the other.
It is computed row by row: the row of a beginning `a` of the first text holds the distances from `a` to
every beginning of the second text, the empty one first.
-/

namespace Gamebook.Text

/-- The rest of a row, when `above` is the row before it from the entry above `left` on, and `left` is
the entry before the rest. -/
def rowFrom (c : Char) (left : Nat) : List Char → List Nat → List Nat
  | d :: ds, corner :: up :: above =>
    let here := min (min (corner + if c = d then 0 else 1) (up + 1)) (left + 1)
    here :: rowFrom c here ds (up :: above)
  | _, _ => []

/-- The row below `above`, for one more character `c` of the first text. -/
def nextRow (b : List Char) (above : List Nat) (c : Char) : List Nat :=
  let first := above.headD 0 + 1
  first :: rowFrom c first b above

/-- The edit distance of two texts. -/
def editDistance (a b : List Char) : Nat :=
  (a.foldl (nextRow b) (List.range (b.length + 1))).getLastD 0

end Gamebook.Text
