import TileCoder.Cdf.Basic

/-!
Distributions from counts.

Each symbol is counted once more than it was seen, cumulative shares are rounded to the nearest
`1 / 32768`, and no symbol gets less than `Cdf.minMass`.
-/

namespace TileCoder.Cdf

open scoped Plain

/-- The inverted cumulative shares of all symbols but the last. `sum` is the weight of the
symbols so far and `share` the last cumulative share given out. -/
def trainedValues (total : Nat) : (sum share : Nat) → List Nat → List Nat
  | _, _, [] => []
  | _, _, [_] => []
  | sum, share, count :: next :: rest =>
      let sum := sum + count + 1
      let rounded := (sum * top + total / 2) / total
      let share := max (min rounded (top - minMass * (rest.length + 1))) (share + minMass)
      (top - share) :: trainedValues total sum share (next :: rest)

/-- The distribution of an alphabet of `symbols` symbols that were seen as often as `counts`
says. -/
def ofCounts (symbols : Nat) (counts : List Nat) : Except CodingError Cdf := do
  if symbols < 2 ∨ maxSymbols < symbols ∨ counts.length ≠ symbols then
    throw .invalidProbability
  let total := (counts.map (· + 1)).sum
  let cdf := trainedValues total 0 0 counts ++ [0, 0]
  checkStrict cdf
  return cdf

end TileCoder.Cdf
