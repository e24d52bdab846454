import TileCoder.Bits

/-!
Recentring: values near a reference get small codes.

The code of the reference itself is 0, then come the values next to it, above and below in turn,
and where one side ends the other goes on alone. Arithmetic is that of machine words: sums, doubles
and differences lose what does not fit.
-/

namespace TileCoder.Code

/-- Twice a word, as a word. -/
def twice (n : Nat) : Nat := 2 * n % wordSize

/-- The code of `value` around `reference`, with no upper end. -/
def recenter (reference value : Nat) : Nat :=
  if twice reference < value then value
  else if reference ≤ value then twice (value - reference)
  else word (twice (reference - value) - 1)

/-- The value that has this code around `reference`. -/
def unrecenter (reference code : Nat) : Nat :=
  if twice reference < code then code
  else if code % 2 = 0 then word (code / 2 + reference)
  else word (reference - (code + 1) / 2)

/-- The code of `value` around `reference` among the numbers below `size`; the upper half is
folded back. -/
def recenterBelow (size reference value : Nat) : Nat :=
  if twice reference ≤ size then recenter reference value
  else recenter (word (size - 1 - reference)) (word (size - 1 - value))

/-- The number below `size` that has this code around `reference`. -/
def unrecenterBelow (size reference code : Nat) : Nat :=
  if twice reference ≤ size then unrecenter reference code
  else word (size - 1 - unrecenter (word (size - 1 - reference)) code)

end TileCoder.Code
