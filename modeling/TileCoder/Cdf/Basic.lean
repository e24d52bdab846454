import TileCoder.Bits
import TileCoder.Error

/-!
Adaptive distributions.

A row of a table holds, for an alphabet of `k` symbols, the `k` values `32768 - 32768 * P(X ≤ s)`
(the last of them is the terminal 0), and a counter of how often the row has been adapted.
The symbol `s` has the mass between its own value and the one before it.

`Cdf.update` moves every value towards the coded symbol. `Cdf.Strict` is what a trained
distribution satisfies and `Cdf.Codable` what adaptation keeps.
-/

namespace TileCoder

open scoped Plain

/-- Inverted cumulative values, a terminal zero and a counter. -/
abbrev Cdf := List Nat

namespace Cdf

/-- The sum of all masses. -/
def top : Nat := 32768

/-- Where the counter of a row stops. -/
def countMax : Nat := 32

/-- The largest alphabet of a distribution. -/
def maxSymbols : Nat := 16

/-- The least mass that training leaves to a symbol. -/
def minMass : Nat := 4

def arity (cdf : Cdf) : Nat := cdf.length - 1

/-- How often the row has been adapted, counted up to `countMax`. -/
def count (cdf : Cdf) : Nat := cdf.getD (cdf.length - 1) 0

/-- The value behind the last symbol. -/
def terminal (cdf : Cdf) : Nat := cdf.getD (cdf.length - 2) 0

/-- The value in front of a symbol. -/
def before (cdf : Cdf) : (symbol : Nat) → Nat
  | 0 => top
  | symbol + 1 => cdf.getD symbol 0

def mass (cdf : Cdf) (symbol : Nat) : Nat := cdf.before symbol - cdf.getD symbol 0

/-- Adaptation is quick while the row is young and slower for larger alphabets. -/
def rate (cdf : Cdf) : Nat := 3 + min (cdf.arity / 2) 2 + cdf.count / 16

/-- A value moved down by its `2 ^ rate`-th part. -/
def lower (rate value : Nat) : Nat := value - value / 2 ^ rate

/-- A value moved up by the `2 ^ rate`-th part of its distance to the top. -/
def raise (rate value : Nat) : Nat := value + (top - value) / 2 ^ rate

/-- Adapts the row after `symbol` has been coded: the values in front of the symbol rise, the
others fall, and the counter advances. -/
def update (cdf : Cdf) (symbol : Nat) : Cdf :=
  cdf.mapIdx fun i value =>
    if i + 2 < cdf.length then
      if symbol ≤ i then lower cdf.rate value else raise cdf.rate value
    else if i + 1 = cdf.length then value + 1 - value / countMax
    else value

/-- Adapts the row after several symbols have been coded. -/
def updateAll (cdf : Cdf) (symbols : List Nat) : Cdf := symbols.foldl update cdf

/-- The row as it starts into a frame: the counter at zero. -/
def resetCount (cdf : Cdf) : Cdf :=
  cdf.mapIdx fun i value => if i + 1 = cdf.length then 0 else value

/-- At least two symbols, a terminal zero, a counter in range, and no negative mass behind the
first value. -/
def Consistent (cdf : Cdf) : Prop :=
  3 ≤ cdf.length ∧ cdf.terminal = 0 ∧ cdf.count ≤ countMax ∧ cdf.dropLast.Pairwise (· ≥ ·)

instance (cdf : Cdf) : Decidable cdf.Consistent :=
  inferInstanceAs (Decidable (_ ∧ _ ∧ _ ∧ _))

/-- Every symbol has a positive mass. -/
def Strict (cdf : Cdf) : Prop :=
  cdf.Consistent ∧ (top :: cdf.dropLast).Pairwise (· > ·)

instance (cdf : Cdf) : Decidable cdf.Strict := inferInstanceAs (Decidable (_ ∧ _))

/-- What every row satisfies that arises from a strict one by adaptation: the first symbol
keeps some mass. -/
def Codable (cdf : Cdf) : Prop := cdf.Consistent ∧ cdf.getD 0 0 < top

instance (cdf : Cdf) : Decidable cdf.Codable := inferInstanceAs (Decidable (_ ∧ _))

def checkStrict (cdf : Cdf) : Except CodingError Unit :=
  if cdf.Strict then .ok () else .error .invalidProbability

/-- Refuses a distribution that adaptation could not have produced. -/
def checkCodable (cdf : Cdf) : Except CodingError Unit :=
  if cdf.Codable then .ok () else .error .invalidProbability

@[simp] theorem length_update (cdf : Cdf) (symbol : Nat) :
    (cdf.update symbol).length = cdf.length := by
  simp [update]

@[simp] theorem length_resetCount (cdf : Cdf) : cdf.resetCount.length = cdf.length := by
  simp [resetCount]

end Cdf

end TileCoder
