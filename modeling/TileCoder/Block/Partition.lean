import TileCoder.Block.Record
import TileCoder.Block.Size

/-!
Partitions of a block, and the context that neighbours give them.

Above and left of a block runs a record of how finely the blocks there are cut: a byte for each 8
samples, with a bit for each size from 8 up to 128 that is set where the neighbour is smaller.
-/

namespace TileCoder

open scoped Plain

/-- How a square block is cut. -/
inductive Partition where
  | none | horizontal | vertical | split | horizontalA | horizontalB | verticalA | verticalB
  | horizontal4 | vertical4
  deriving DecidableEq, Repr, Inhabited

namespace Partition

def all : List Partition :=
  [none, horizontal, vertical, split, horizontalA, horizontalB, verticalA, verticalB, horizontal4,
    vertical4]

def index (partition : Partition) : Nat := partition.ctorIdx

def ofIndex? (index : Nat) : Option Partition := all[index]?

theorem ofIndex?_index (partition : Partition) : ofIndex? partition.index = some partition := by
  cases partition <;> rfl

/-- The bytes that a block leaves in the record below it and in that to its right. -/
def record (size : BlockSize) : Nat × Nat := (32 - size.unitWidth, 32 - size.unitHeight)

/-- The records above and to the left after the block of size `size` at entries `column` and `row`
was cut into pieces of size `piece`. -/
def updateRecords (above left : List Nat) (column row : Nat) (piece size : BlockSize) :
    List Nat × List Nat :=
  (overwrite column (max (size.unitWidth / 2) 1) (record piece).1 above,
    overwrite row (max (size.unitHeight / 2) 1) (record piece).2 left)

/-- The steps from an 8 by 8 block to this size. -/
def level (size : BlockSize) : Nat := size.widthLog - BlockSize.b8x8.widthLog

/-- Whether the records say that the neighbours are cut finer, above and to the left. -/
def context (above left : Nat) (size : BlockSize) : Nat :=
  let bit (record : Nat) := record / 2 ^ level size % 2
  2 * bit left + bit above + 4 * level size

/-- Whether a block of this size has a partition: it is square and at least 8 by 8. -/
def Applies (size : BlockSize) : Prop := size.IsSquare ∧ .b8x8 ≤ size

instance (size : BlockSize) : Decidable (Applies size) := inferInstanceAs (Decidable (_ ∧ _))

/-- The number of partitions that a block may have: 8 by 8 blocks are not cut in four strips or
uneven pieces, and 128 by 128 blocks not in four strips. -/
def arity (size : BlockSize) : Nat :=
  if level size = 0 then 4 else if level size ≤ 3 then 10 else 8

/-- The partitions with a piece that crosses the lower edge of the frame as a split does. -/
def alikeAtBottom : List Partition :=
  [vertical, split, horizontalA, verticalA, verticalB, vertical4]

/-- The partitions with a piece that crosses the right edge of the frame as a split does. -/
def alikeAtRight : List Partition :=
  [horizontal, split, horizontalA, horizontalB, verticalA, horizontal4]

end Partition

end TileCoder
