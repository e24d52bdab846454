import TileCoder.Code.Integer

/-!
The lengths of integer codes in eighths of a bit, counted without making the digits.
-/

namespace TileCoder.Code

def uniformCost (size value : Nat) : Nat :=
  if size ≤ 1 then 0
  else
    let (width, short) := uniformSplit size
    8 * (width - 1) + if short ≤ value then 8 else 0

/-- The length of a bounded subexponential code, from the bin `i` on. -/
def binCost (size k i start value : Nat) : Nat :=
  if size ≤ start + 3 * binSize i k then uniformCost (size - start) (value - start)
  else if start + binSize i k ≤ value then 8 + binCost size k (i + 1) (start + binSize i k) value
  else 8 + 8 * binWidth i k
termination_by size - start
decreasing_by
  have := binSize_pos i k
  omega

def subexpCost (size k value : Nat) : Nat := binCost size k 0 0 value

def subexpAroundCost (size k reference value : Nat) : Nat :=
  subexpCost size k (recenterBelow size reference value)

end TileCoder.Code
