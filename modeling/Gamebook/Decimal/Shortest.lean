/-
# Gamebook.Decimal.Shortest — the fewest decimals that read back

Between a binary64 number and its neighbours lies an interval of reals that all round to it. The
shortest text is the coarsest decimal grid with a point in that interval and, of the grid's points
there, the one nearest to the number; of two equally near points the larger one.

The number is given as `m / 2 ^ q`. On the grid of `k` decimals its neighbours are `m * 10 ^ k / 2 ^ q`
rounded down and that plus one, and all comparisons are made on the common denominator
`4 * 2 ^ q * 10 ^ k`, in natural numbers. The grid of `q` decimals always hits, since
`m / 2 ^ q = m * 5 ^ q / 10 ^ q`, so the search ends.
-/

namespace Gamebook.Decimal

/-- A number `m / 2 ^ q`; `tight` as in `Binary64.finite`. -/
structure Dyadic where
  m : Nat
  q : Nat
  tight : Bool

namespace Dyadic

/-- Whether `d / 10 ^ k` rounds to the number: it is at most half the gap to a neighbour away, and
less than that when the significand is odd, as a tie goes to the even significand. -/
def accepts (x : Dyadic) (k d : Nat) : Bool :=
  let here := 4 * x.m * Nat.pow 10 k
  let there := 4 * d * Nat.pow 2 x.q
  let reach := if there < here && x.tight then Nat.pow 10 k else 2 * Nat.pow 10 k
  let gap := if there < here then here - there else there - here
  if x.m % 2 = 0 then gap ≤ reach else gap < reach

/-- The grid point of `k` decimals that stands for the number, if one does. -/
def onGrid (x : Dyadic) (k : Nat) : Option Nat :=
  let scaled := x.m * Nat.pow 10 k
  let unit := Nat.pow 2 x.q
  let low := scaled / unit
  let high := low + 1
  match x.accepts k low, x.accepts k high with
  | true, true => if 2 * (scaled % unit) < unit then some low else some high
  | true, false => some low
  | false, true => some high
  | false, false => none

/-- The first hit among `steps` grids, those of `k`, `k + 1`, … decimals, as the grid and its point. After
the last of them the number itself is a point of the grid, if the grids reached `q` decimals. -/
def search (x : Dyadic) : (steps k : Nat) → Nat × Nat
  | 0, k => (k, x.m * Nat.pow 10 k / Nat.pow 2 x.q)
  | steps + 1, k =>
    match x.onGrid k with
    | some d => (k, d)
    | none => x.search steps (k + 1)

/-- The number of decimals and the digits of the shortest text, with at least one decimal. -/
def shortest (x : Dyadic) : Nat × Nat := x.search x.q 1

end Dyadic

end Gamebook.Decimal
