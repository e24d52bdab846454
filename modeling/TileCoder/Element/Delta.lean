import TileCoder.Element.Program

/-!
Changes of the quantizer and of the loop filters from block to block.

The magnitude is a symbol up to 3; a larger one adds its digit count and its digits, and the sign
comes last.
-/

namespace TileCoder.Delta

open scoped Plain

/-- The largest magnitude of a change. -/
def limit : Nat := 512

/-- The symbol of all magnitudes that are too large for a symbol of their own. -/
def escape : Nat := 3

/-- The number of loop filters of a frame. -/
def filters : Nat := 4

/-- Writes what the symbol leaves open. -/
def writeTail (magnitude : Nat) (negative : Bool) : Plan Unit := do
  if escape ≤ magnitude then
    let digits := (magnitude - 1).log2
    Plan.literal 3 (digits - 1)
    Plan.literal digits (magnitude - 2 ^ digits - 1)
  if 0 < magnitude then Emit.one (.bit negative)

def write (slot : Slot) (value : Int) : Plan Unit := do
  Plan.symbol slot (min value.natAbs escape)
  writeTail value.natAbs (value < 0)

/-- Reads a magnitude whose symbol is known. -/
def readMagnitude (symbol : Nat) : Parse Nat := do
  if symbol < escape then return symbol
  let digits ← Parse.literal 3
  let rest ← Parse.literal (digits + 1)
  return rest + 2 ^ (digits + 1) + 1

def read (slot : Slot) : Parse Int := do
  let symbol ← Parse.readSymbol slot
  let magnitude ← readMagnitude symbol
  if magnitude = 0 then return 0
  let negative ← Code.bit
  return if negative then -magnitude else magnitude

def quantizerSlot : Slot := Table.quantizerDelta.only

def writeQuantizer (value : Int) : Plan Unit := do
  if limit < value.natAbs then throw .invalidElement
  write quantizerSlot value

def readQuantizer : Parse Int := read quantizerSlot

/-- The row of a loop filter, or the one of all of them. -/
def filterSlot (each : Bool) (i : Nat) : Slot :=
  if each then Table.filterDeltas.at i else Table.filterDelta.only

/-- The most changes that can be coded. -/
def maxFilters (each : Bool) : Nat := if each then filters else 1

/-- Writes changes of the loop filters from the `i`-th on. -/
def writeEach (each : Bool) : (i : Nat) → List Int → Plan Unit
  | _, [] => pure ()
  | i, value :: rest => do
      write (filterSlot each i) value
      writeEach each (i + 1) rest

/-- Writes changes of `count` loop filters. -/
def writeFilters (each : Bool) (count : Nat) (values : List Int) : Plan Unit := do
  if maxFilters each < count ∨ values.length ≠ count then throw .invalidElement
  if values.any fun value => limit < value.natAbs then throw .invalidElement
  writeEach each 0 values

/-- Reads `count` changes of the loop filters from the `i`-th on. -/
def readEach (each : Bool) : (count i : Nat) → Parse (List Int)
  | 0, _ => return []
  | count + 1, i => do
      let value ← read (filterSlot each i)
      let rest ← readEach each count (i + 1)
      return value :: rest

/-- Reads changes of `count` loop filters. -/
def readFilters (each : Bool) (count : Nat) : Parse (List Int) := do
  if maxFilters each < count then Parse.fail .invalidElement
  readEach each count 0

/-- The changes of all loop filters; those that are not coded are zero. -/
def allFilters (values : List Int) : List Int :=
  values ++ List.replicate (filters - values.length) 0

end TileCoder.Delta
