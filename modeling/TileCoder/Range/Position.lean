import TileCoder.Range.Token

/-!
Positions within a payload, in eighths of a bit.

A range says how much of the last bit is used up: `usedEighths` counts whole bits and takes away
what the range still leaves open, which is its binary logarithm to three binary places. Positions
are machine words and start over where they no longer fit.
-/

namespace TileCoder.Range

open scoped Plain

/-- The next `steps` binary places of the logarithm of `range / 32768`, appended to `log`. -/
def logPlaces : (steps log range : Nat) → Nat
  | 0, log, _ => log
  | steps + 1, log, range =>
      let square := range * range / 32768
      let place := square / 65536
      logPlaces steps (2 * log + place) (square / 2 ^ place)

/-- Eighths of a bit used after `bits` bits, when `range` is left, as a word. -/
def usedEighths (bits : Int) (range : Nat) : Nat := word (8 * bits - logPlaces 3 0 range)

end TileCoder.Range
