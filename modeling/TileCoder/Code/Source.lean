import TileCoder.Code.Integer

/-!
Reading integer codes from any source of bits.

A `BitSource` delivers single bits and fields of several. The codes that both the range coder and
plain bit fields can carry are read here once, for all sources.
-/

namespace TileCoder.Code

open scoped Plain

/-- Where the digits of integer codes come from. -/
class BitSource (m : Type → Type) where
  bit : m Bool
  /-- The next `width` bits as a number. -/
  field : (width : Nat) → m Nat

export BitSource (bit field)

variable {m : Type → Type} [Monad m] [BitSource m]

/-- Reads a number below `size`. -/
def readUniform (size : Nat) : m Nat := do
  if size ≤ 1 then return 0
  let (width, short) := uniformSplit size
  let value ← field (width - 1)
  if value < short then return value
  let last ← field 1
  return 2 * value - short + last

/-- Counts zeros up to the first one bit, at most `limit` of them. -/
def countZeros : (limit : Nat) → m Nat
  | 0 => return 0
  | limit + 1 => do
      if ← bit then return 0
      let rest ← countZeros limit
      return rest + 1

/-- Reads a number of any size whose digit count comes first. -/
def readGamma : m Nat := do
  let zeros ← countZeros 32
  if zeros = 32 then return wordSize - 1
  let digits ← field zeros
  return 2 ^ zeros - 1 + digits

/-- Reads a number below `size`, from the bin `i` on. -/
def readBin (size k i start : Nat) : m Nat :=
  if size ≤ start + 3 * binSize i k then do
    let value ← readUniform (size - start)
    return value + start
  else do
    if ← bit then readBin size k (i + 1) (start + binSize i k)
    else
      let value ← field (binWidth i k)
      return value + start
termination_by size - start
decreasing_by
  have := binSize_pos i k
  omega

def readSubexpBelow (size k : Nat) : m Nat := readBin size k 0 0

def readSubexpAround (size k reference : Nat) : m Nat := do
  let code ← readSubexpBelow size k
  return unrecenterBelow size reference code

/-- The signed reading of a word. -/
def signedWord (word : Nat) : Int := (word : Int).bmod wordSize

/-- Reads a signed number from `low` up to but not including `high`, given a reference. -/
def readSignedSubexp (low high : Int) (k : Nat) (reference : Int) : m Int := do
  let code ← readSubexpAround (distance low high) k (distance low reference)
  return signedWord code + low

/-- Reads what follows the first digit of a window code. -/
def readWindowTail (size span reference : Nat) (inside : Bool) : m Nat := do
  let low := (window size span reference).1
  if inside then
    let value ← readUniform span
    return value + low
  else
    let value ← readUniform (size - span)
    return if low ≤ value then value + span else value

end TileCoder.Code
