import TileCoder.Block.Partition
import TileCoder.Element.Program

/-!
The element that says how a block is cut.

Inside the frame any partition of the block's size may follow. Where a half of the block lies
outside of the frame, only a split or one straight cut is possible, and the flag for a split has
the mass of all partitions alike. Where both halves do, the block is split without a word.
-/

namespace TileCoder.Partition

/-- Where a block to be cut stands: the records beside it, its size, and whether its lower and its
right half lie within the frame. -/
structure Site where
  above : Nat
  left : Nat
  size : BlockSize
  hasRows : Bool
  hasColumns : Bool
  deriving DecidableEq, Repr

namespace Site

/-- The row that partitions of the block are coded with. -/
def slot (site : Site) : Slot :=
  let row := context site.above site.left site.size
  if level site.size = 0 then Table.partition8.at row
  else if level site.size ≤ 3 then Table.partition.at (row - 4)
  else Table.partition128.at (row - 16)

/-- At the edge: the straight cut that may be chosen instead of a split, and the partitions that
count as a split. -/
def edge (site : Site) : Partition × List Partition :=
  if site.hasColumns then (horizontal, alikeAtBottom) else (vertical, alikeAtRight)

/-- The symbols of the partitions that count as a split. -/
def edgeSymbols (site : Site) : List Nat :=
  (site.edge.2.map index).filter (· < site.slot.table.symbols)

end Site

def write (site : Site) (partition : Partition) : Plan Unit := do
  if ¬Applies site.size then throw .invalidElement
  match site.hasRows, site.hasColumns with
  | true, true =>
      checkSymbol partition.index (arity site.size)
      Plan.symbol site.slot partition.index
  | false, false => if partition ≠ split then throw .invalidElement
  | _, _ =>
      if partition ≠ split ∧ partition ≠ site.edge.1 then throw .invalidElement
      Emit.one (.gathered site.slot site.edgeSymbols (partition = split))

def read (site : Site) : Parse Partition :=
  if ¬Applies site.size then .fail .invalidElement
  else
    match site.hasRows, site.hasColumns with
    | true, true => do
        let symbol ← Parse.readSymbol site.slot
        Parse.ofOption (ofIndex? symbol)
    | false, false => return split
    | _, _ => do
        let isSplit ← Parse.readGathered site.slot site.edgeSymbols
        return if isSplit then split else site.edge.1

end TileCoder.Partition
