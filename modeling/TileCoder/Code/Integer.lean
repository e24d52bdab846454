import TileCoder.Code.Recenter

/-!
Integer codes: the digits that stand for a value.

* `uniform`: numbers below `size`, the first few with one digit less.
* `subexp`: numbers of any size, in bins whose widths grow from `2 ^ k`.
* `subexpBelow`: the same for numbers below `size`, with a uniform last bin.
* `bilevel`: numbers below `size`, with a short code for a window around a reference.
* `gamma`: numbers of any size, the digit count first.
-/

namespace TileCoder.Code

open scoped Plain

/-- How a uniform code splits: the longer digit count and the number of shorter codes. -/
def uniformSplit (size : Nat) : Nat × Nat :=
  let width := bitLength size
  (width, 2 ^ width - size)

/-- The digits of `value` among the numbers below `size`. -/
def uniform (size value : Nat) : List Bool :=
  if size ≤ 1 then []
  else
    let (width, short) := uniformSplit size
    if value < short then Bits.ofNat (width - 1) value
    else
      Bits.ofNat (width - 1) (short + (value - short) / 2) ++ Bits.ofNat 1 (value - short)

/-- The digit count of a number and the number itself, after a run of zeros as long as the digits
behind the leading one; the largest word is a run of zeros alone. -/
def gamma (value : Nat) : List Bool :=
  if value = wordSize - 1 then Bits.ofNat 32 0
  else
    let width := bitLength (value + 1)
    List.replicate (width - 1) false ++ Bits.ofNat width (value + 1)

def binWidth (i k : Nat) : Nat := if i = 0 then k else k + i - 1

/-- How many numbers the `i`-th bin holds. -/
def binSize (i k : Nat) : Nat := 2 ^ binWidth i k

theorem binSize_pos (i k : Nat) : 0 < binSize i k := Nat.two_pow_pos _

/-- The digits of `value`, from the bin `i` on, which starts at `start`. -/
def subexpFrom (k i start value : Nat) : List Bool :=
  if start + binSize i k ≤ value then true :: subexpFrom k (i + 1) (start + binSize i k) value
  else false :: Bits.ofNat (binWidth i k) (value - start)
termination_by value + 1 - start
decreasing_by
  have := binSize_pos i k
  omega

def subexp (k value : Nat) : List Bool := subexpFrom k 0 0 value

/-- What is left to say of a value once its bin is known. -/
inductive BinTail where
  /-- A number below `size`. -/
  | uniform (size value : Nat)
  /-- A number of `width` digits. -/
  | digits (width value : Nat)
  deriving DecidableEq, Repr

/-- The digits that select a bin from the `i`-th on, and what is left of the value. The last bin
takes all numbers below `size` as soon as three bins would hold them. -/
def binFrom (size k i start value : Nat) : List Bool × BinTail :=
  if size ≤ start + 3 * binSize i k then ([], .uniform (size - start) (value - start))
  else if start + binSize i k ≤ value then
    let (path, tail) := binFrom size k (i + 1) (start + binSize i k) value
    (true :: path, tail)
  else ([false], .digits (binWidth i k) (value - start))
termination_by size - start
decreasing_by
  have := binSize_pos i k
  omega

def BinTail.bits : BinTail → List Bool
  | .uniform size value => Code.uniform size value
  | .digits width value => Bits.ofNat width value

/-- The subexponential digits of a number below `size`. -/
def subexpBelow (size k value : Nat) : List Bool :=
  let (path, tail) := binFrom size k 0 0 value
  path ++ tail.bits

/-- The digits of a number below `size`, given a reference. -/
def subexpAround (size k reference value : Nat) : List Bool :=
  subexpBelow size k (recenterBelow size reference value)

/-- The distance of two signed numbers, as a word. -/
def distance (low value : Int) : Nat := ((value - low) % wordSize).toNat

/-- The digits of a signed number from `low` up to but not including `high`, given a reference. -/
def signedSubexp (low high : Int) (k : Nat) (reference value : Int) : List Bool :=
  subexpAround (distance low high) k (distance low reference) (distance low value)

/-- The first and the last number of the window of `span` numbers around a reference. -/
def window (size span reference : Nat) : Nat × Nat :=
  if reference < span / 2 then (0, span - 1)
  else
    let low := reference - span / 2
    if size ≤ low + span - 1 then (size - span, size - 1) else (low, low + span - 1)

/-- Whether a window code has these parameters. -/
def WindowFits (size span reference : Nat) : Prop :=
  0 < span ∧ span ≤ size ∧ reference < size

instance (size span reference : Nat) : Decidable (WindowFits size span reference) :=
  inferInstanceAs (Decidable (_ ∧ _ ∧ _))

/-- What follows the first digit of a window code, and that digit: whether the value lies in the
window. -/
def windowTail (size span reference value : Nat) : Bool × Nat × Nat :=
  let (low, high) := window size span reference
  if low ≤ value ∧ value ≤ high then (true, span, value - low)
  else (false, size - span, if high < value then value - span else value)

/-- The digits of a number below `size`, short within the window of `span` numbers around a
reference. -/
def bilevel (size span reference value : Nat) : List Bool :=
  if size ≤ 1 then []
  else
    let (inside, size, value) := windowTail size span reference value
    inside :: uniform size value

end TileCoder.Code
