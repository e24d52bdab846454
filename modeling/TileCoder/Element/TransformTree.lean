import TileCoder.Block.Record
import TileCoder.Element.Neighbour
import TileCoder.Element.Program
import TileCoder.Transform.Kind

/-!
Sizes and kinds of transforms.

An intra block says once how often its largest transform is split; in an inter block each transform
says whether it is split further.
-/

namespace TileCoder

namespace TransformKind

/-- What the choice of a kind depends on: the size, the prediction, whether the frame restricts
itself to few kinds, and the direction of intra prediction. -/
structure Site where
  size : TransformSize
  inter : Bool
  reduced : Bool
  direction : PredictionMode
  deriving DecidableEq, Repr

namespace Site

def set (site : Site) : TransformSet := .ofSize site.size site.inter site.reduced

/-- The row of a set; intra sets have one for each direction. -/
def slot (site : Site) : Slot :=
  let square := site.size.square.index
  let directed := square * PredictionMode.intraModes + site.direction.index
  match site.set with
  | .inter1 => Table.interTransform1.at square
  | .inter2 => Table.interTransform2.at square
  | .intra1 => Table.intraTransform1.at directed
  | .intra2 => Table.intraTransform2.at directed
  | .inter3 | .dctOnly => Table.interTransform3.at square

/-- An intra transform needs the direction of a luma mode. -/
def checkDirection (site : Site) : Except CodingError Unit :=
  if site.inter then .ok () else checkSymbol site.direction.index PredictionMode.intraModes

end Site

def write (site : Site) (kind : TransformKind) : Plan Unit := do
  if kind ∉ site.set.kinds then throw .invalidElement
  if site.set ≠ .dctOnly then
    site.checkDirection
    Plan.symbol site.slot (site.set.symbol kind)

def read (site : Site) : Parse TransformKind := do
  if site.set = .dctOnly then return dctDct
  site.checkDirection
  let symbol ← Parse.readSymbol site.slot
  Parse.ofOption (site.set.kind? symbol)

end TransformKind

namespace TransformSize

/-- A block whose transform size is coded once: its neighbours, its size, and the sizes of the
transforms above and to the left. -/
structure Site where
  near : Neighbours
  block : BlockSize
  aboveWidth : Nat
  leftHeight : Nat
  deriving DecidableEq, Repr

def Site.slot (site : Site) : Slot :=
  let context := site.near.transformContext site.block site.aboveWidth site.leftHeight
  match category site.block with
  | 0 => Table.transformDepth8.at context
  | category + 1 => Table.transformDepth.at (3 * category + context)

def write (site : Site) (size : TransformSize) : Plan Unit := do
  if ¬Fits site.block size then throw .invalidElement
  if size.IsRect ∧ ¬site.block.AllowsRectTransform then throw .invalidElement
  match depthOf? site.block size with
  | none => throw .invalidElement
  | some depth => Plan.symbol site.slot depth

def read (site : Site) : Parse TransformSize := do
  if site.block = .b4x4 then Parse.fail .invalidElement
  let depth ← Parse.readSymbol site.slot
  if depthLimit site.block < depth then Parse.fail .corruptElement
  return atDepth site.block depth

/-- A transform of an inter block that may be split: how often it was, and the sizes of the
transforms above and to the left. -/
structure SplitSite where
  block : BlockSize
  size : TransformSize
  depth : Nat
  aboveWidth : Nat
  leftHeight : Nat
  deriving DecidableEq, Repr

namespace SplitSite

/-- The size of the block, whether the transform was split before, and how many neighbouring
transforms are smaller. -/
def context (site : SplitSite) : Nat :=
  let largest := (ofBlock site.block).squareUp
  let smallerAbove : Bool := site.aboveWidth < site.size.width
  let smallerLeft : Bool := site.leftHeight < site.size.height
  let wasSplit : Bool := site.size.squareUp ≠ largest
  3 * (wasSplit.toNat + 2 * (squares - 1 - largest.index)) + smallerAbove.toNat +
    smallerLeft.toNat

/-- Whether the transform may be split further. -/
def MaySplit (site : SplitSite) : Prop := site.size ≠ t4x4 ∧ site.depth < maxSplits

instance (site : SplitSite) : Decidable site.MaySplit := inferInstanceAs (Decidable (_ ∧ _))

def slot (site : SplitSite) : Slot := Table.transformSplit.at site.context

end SplitSite

def writeSplit (site : SplitSite) (split : Bool) : Plan Unit := do
  if ¬Fits site.block site.size then throw .invalidElement
  if site.MaySplit then Plan.flag site.slot split
  else if split then throw .invalidElement

def readSplit (site : SplitSite) : Parse Bool := do
  if ¬Fits site.block site.size then Parse.fail .invalidElement
  if site.MaySplit then Parse.readFlag site.slot else return false

/-- The widths and heights that the block at entries `column` and `row` leaves in the records above
and to the left: those of its transform, or its own where it has no residue. -/
def updateRecords (above left : List Nat) (column row : Nat) (block : BlockSize)
    (size : TransformSize) (skip : Bool) : List Nat × List Nat :=
  let width := if skip then block.width else size.width
  let height := if skip then block.height else size.height
  (overwrite column block.unitWidth width above, overwrite row block.unitHeight height left)

end TransformSize

end TileCoder
