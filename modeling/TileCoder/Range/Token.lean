import TileCoder.Cdf.Basic
import TileCoder.Bits

/-!
How a range is shared out among the symbols of a distribution.

The range of a coder is a number from 32768 to 65535. A symbol is coded by its `Token`, and
`Token.part` is the piece of the range that belongs to the symbol. Every symbol keeps at least
`minPart` of the range, whatever its mass.
-/

namespace TileCoder.Range

/-- The least part of a range that a symbol gets. -/
def minPart : Nat := 4

/-- The range of a fresh coder. -/
def fullRange : Nat := 32768

/-- The share of `range` that lies below an inverted cumulative value, at the precision of the
coder: eight bits of the range and nine of the value. -/
def scale (range value : Nat) : Nat := range / 256 * (value / 64) / 2

/-- What the coder needs to know of a symbol: the values before and behind it, and the number of
symbols from it to the last one. -/
structure Token where
  before : Nat
  behind : Nat
  ranks : Nat
  deriving DecidableEq, Repr, Inhabited

/-- A piece of a range: its distance from the lower end and its size. -/
structure Part where
  offset : Nat
  size : Nat
  deriving DecidableEq, Repr

def Token.ofSymbol (cdf : Cdf) (symbol : Nat) : Token :=
  { before := cdf.before symbol
    behind := cdf.getD symbol 0
    ranks := cdf.length - 1 - symbol }

/-- The piece of `range` that a token selects. -/
def Token.part (token : Token) (range : Nat) : Part :=
  let behind := scale range token.behind + minPart * (token.ranks - 1)
  if token.before < Cdf.top then
    let before := scale range token.before + minPart * token.ranks
    ⟨range - before, before - behind⟩
  else ⟨0, range - behind⟩

/-- The distribution of a flag that is set with probability `value / 32768`. -/
def flagCdf (value : Nat) : Cdf := [value, 0, 0]

/-- Either value of a bare bit is as likely. -/
def evenOdds : Nat := 16384

/-- How far a part has to be shifted to be a range again. -/
def headroom (part : Nat) : Nat := 16 - bitLength part

end TileCoder.Range
