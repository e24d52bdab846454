import TileCoder.Cdf.Basic
import TileCoder.Table.Slot
import TileCoder.Table.Trained.Frame
import TileCoder.Table.Trained.Inter
import TileCoder.Table.Trained.Intra
import TileCoder.Table.Trained.Motion
import TileCoder.Table.Trained.Palette
import TileCoder.Table.Trained.Partition
import TileCoder.Table.Trained.Reference
import TileCoder.Table.Trained.Transform

/-!
The tables that a tile codes with.

`Tables` stores the rows of all tables. Each row has one slot, so that writing one leaves the others
as they were (`Tables.get_set_of_ne`). `Tables.initial` are the trained distributions.
-/

namespace TileCoder

/-- The trained cumulative probabilities of a table, row by row. -/
def Table.trained : Table → List (List Nat)
  | .partition8 => Trained.partition8
  | .partition128 => Trained.partition128
  | .partition => Trained.partition
  | .keyLumaMode => Trained.keyLumaMode
  | .lumaMode => Trained.lumaMode
  | .chromaMode => Trained.chromaMode
  | .chromaModeFromLuma => Trained.chromaModeFromLuma
  | .angleDelta => Trained.angleDelta
  | .lumaFactorSigns => Trained.lumaFactorSigns
  | .lumaFactor => Trained.lumaFactor
  | .filterIntra => Trained.filterIntra
  | .filterIntraMode => Trained.filterIntraMode
  | .lumaPaletteSize => Trained.lumaPaletteSize
  | .chromaPaletteSize => Trained.chromaPaletteSize
  | .lumaPalette => Trained.lumaPalette
  | .chromaPalette => Trained.chromaPalette
  | .lumaColor2 => Trained.lumaColor2
  | .lumaColor3 => Trained.lumaColor3
  | .lumaColor4 => Trained.lumaColor4
  | .lumaColor5 => Trained.lumaColor5
  | .lumaColor6 => Trained.lumaColor6
  | .lumaColor7 => Trained.lumaColor7
  | .lumaColor8 => Trained.lumaColor8
  | .chromaColor2 => Trained.chromaColor2
  | .chromaColor3 => Trained.chromaColor3
  | .chromaColor4 => Trained.chromaColor4
  | .chromaColor5 => Trained.chromaColor5
  | .chromaColor6 => Trained.chromaColor6
  | .chromaColor7 => Trained.chromaColor7
  | .chromaColor8 => Trained.chromaColor8
  | .intraCopy => Trained.intraCopy
  | .skip => Trained.skip
  | .skipMode => Trained.skipMode
  | .isInter => Trained.isInter
  | .isCompound => Trained.isCompound
  | .isBidirectional => Trained.isBidirectional
  | .sameSideReference => Trained.sameSideReference
  | .singleReference => Trained.singleReference
  | .forwardReference => Trained.forwardReference
  | .backwardReference => Trained.backwardReference
  | .isNotNewMv => Trained.isNotNewMv
  | .isNotGlobalMv => Trained.isNotGlobalMv
  | .isNotNearestMv => Trained.isNotNearestMv
  | .nextCandidate => Trained.nextCandidate
  | .compoundMode => Trained.compoundMode
  | .interIntra => Trained.interIntra
  | .interIntraMode => Trained.interIntraMode
  | .interIntraWedge => Trained.interIntraWedge
  | .compoundType => Trained.compoundType
  | .wedgeIndex => Trained.wedgeIndex
  | .motionMode => Trained.motionMode
  | .overlappedMotion => Trained.overlappedMotion
  | .interpolationFilter => Trained.interpolationFilter
  | .compoundIndex => Trained.compoundIndex
  | .compoundGroup => Trained.compoundGroup
  | .intraTransform1 => Trained.intraTransform1
  | .intraTransform2 => Trained.intraTransform2
  | .interTransform1 => Trained.interTransform1
  | .interTransform2 => Trained.interTransform2
  | .interTransform3 => Trained.interTransform3
  | .transformDepth8 => Trained.transformDepth8
  | .transformDepth => Trained.transformDepth
  | .transformSplit => Trained.transformSplit
  | .segmentId => Trained.segmentId
  | .segmentPredicted => Trained.segmentPredicted
  | .spatialSegmentId => Trained.spatialSegmentId
  | .quantizerDelta => Trained.quantizerDelta
  | .filterDelta => Trained.filterDelta
  | .filterDeltas => Trained.filterDeltas
  | .restoration => Trained.restoration
  | .selfGuided => Trained.selfGuided
  | .wiener => Trained.wiener
  | .motionJoint => Trained.motionJoint
  | .rowClass => Trained.componentClass
  | .rowQuarter0 => Trained.componentQuarter0
  | .rowQuarter => Trained.componentQuarter
  | .rowSign => Trained.componentSign
  | .rowEighth0 => Trained.componentEighth0
  | .rowEighth => Trained.componentEighth
  | .rowWhole0 => Trained.componentWhole0
  | .rowWhole => Trained.componentWhole
  | .columnClass => Trained.componentClass
  | .columnQuarter0 => Trained.componentQuarter0
  | .columnQuarter => Trained.componentQuarter
  | .columnSign => Trained.componentSign
  | .columnEighth0 => Trained.componentEighth0
  | .columnEighth => Trained.componentEighth
  | .columnWhole0 => Trained.componentWhole0
  | .columnWhole => Trained.componentWhole

theorem Table.length_trained (table : Table) : table.trained.length = table.rows := by
  cases table <;> rfl

/-- The tables in the order in which their counters are reset: those of a tile's blocks, those of
their residue and of their filters, and those of both components of motion vectors. -/
def Table.resetOrder : List Table :=
  [partition8, partition128, partition, keyLumaMode, lumaMode, chromaMode, chromaModeFromLuma,
    angleDelta, lumaFactorSigns, lumaFactor, filterIntra, filterIntraMode] ++
  [lumaPaletteSize, chromaPaletteSize, lumaPalette, chromaPalette, lumaColor2, lumaColor3,
    lumaColor4, lumaColor5, lumaColor6, lumaColor7, lumaColor8, chromaColor2, chromaColor3,
    chromaColor4, chromaColor5, chromaColor6, chromaColor7, chromaColor8, intraCopy] ++
  [skip, skipMode, isInter, isCompound, isBidirectional, sameSideReference, singleReference,
    forwardReference, backwardReference, isNotNewMv, isNotGlobalMv, isNotNearestMv, nextCandidate,
    compoundMode] ++
  [interIntra, interIntraMode, interIntraWedge, compoundType, wedgeIndex, motionMode,
    overlappedMotion, interpolationFilter, compoundIndex, compoundGroup] ++
  [intraTransform1, intraTransform2, interTransform1, interTransform2, interTransform3,
    transformDepth8, transformDepth, transformSplit] ++
  [segmentId, segmentPredicted, spatialSegmentId, quantizerDelta, filterDelta, filterDeltas,
    restoration, selfGuided, wiener] ++
  [motionJoint, rowClass, rowQuarter0, rowQuarter, rowSign, rowEighth0, rowEighth, rowWhole0,
    rowWhole, columnClass, columnQuarter0, columnQuarter, columnSign, columnEighth0, columnEighth,
    columnWhole0, columnWhole]

/-- The distribution with these cumulative probabilities, not adapted yet. -/
def Cdf.ofShares (shares : List Nat) : Cdf := shares.map (top - ·) ++ [0, 0]

/-- The rows of all tables. -/
structure Tables where
  cdfs : Vector Cdf Table.totalRows
  deriving DecidableEq

namespace Tables

/-- The trained rows in the order of their slots. -/
def initialRows : List Cdf := Table.all.flatMap fun table => table.trained.map Cdf.ofShares

theorem length_initialRows : initialRows.length = Table.totalRows := by
  rw [initialRows, Table.totalRows, List.length_flatMap]
  simp [Table.length_trained]

/-- The tables before anything was coded. -/
def initial : Tables := ⟨⟨initialRows.toArray, length_initialRows⟩⟩

def get (tables : Tables) (slot : Slot) : Cdf :=
  have := slot.index_lt
  tables.cdfs[slot.index]

def set (tables : Tables) (slot : Slot) (cdf : Cdf) : Tables :=
  ⟨tables.cdfs.set slot.index cdf slot.index_lt⟩

/-- Adapts a row after a symbol was coded with it. -/
def update (tables : Tables) (slot : Slot) (symbol : Nat) : Tables :=
  tables.set slot ((tables.get slot).update symbol)

/-- Resets the counters of some rows of a table: of one row, or of all rows in arrays of these
lengths, one part of the outermost array after another. -/
def resetNested (table : Table) : (lengths : List Nat) → (row : Nat) → Tables → Tables
  | [], row, tables => tables.set (table.at row) (tables.get (table.at row)).resetCount
  | length :: inner, row, tables =>
      (List.range length).foldl
        (fun tables part => resetNested table inner (row + part * Table.rowsIn inner) tables) tables

/-- Resets the counters of a table. -/
def resetTable (tables : Tables) (table : Table) : Tables :=
  resetNested table table.nesting 0 tables

/-- The tables as they start into a frame: all counters at zero. -/
@[irreducible] def resetCounts (tables : Tables) : Tables :=
  Table.resetOrder.foldl resetTable tables

/-- The values of a table, row after row. -/
def tableValues (tables : Tables) (table : Table) : List Nat :=
  (List.range table.rows).flatMap fun row => tables.get (table.at row)

/-- The values of some tables, one table after another. -/
def values (tables : Tables) (parts : List Table) : List Nat := parts.flatMap tables.tableValues

/-- Replaces the `i`-th value of some tables. -/
def setValue (tables : Tables) : (parts : List Table) → (i value : Nat) → Tables
  | [], _, _ => tables
  | table :: rest, i, value =>
      if i < table.size then
        let slot := table.at (i / table.rowSize)
        tables.set slot ((tables.get slot).set (i % table.rowSize) value)
      else setValue tables rest (i - table.size) value

/-- The values of some tables that are not what they were before, with their places. -/
def changes (tables before : Tables) (parts : List Table) : List (Nat × Nat) :=
  ((tables.values parts).zip (before.values parts)).zipIdx.filterMap fun ((value, old), i) =>
    if value = old then none else some (i, value)

@[simp] theorem get_set_self (tables : Tables) (slot : Slot) (cdf : Cdf) :
    (tables.set slot cdf).get slot = cdf := by
  simp [get, set]

theorem get_set_of_ne (tables : Tables) {slot other : Slot} (cdf : Cdf) (different : slot ≠ other) :
    (tables.set slot cdf).get other = tables.get other := by
  simp [get, set, mt Slot.index_injective different]

@[simp] theorem set_get_self (tables : Tables) (slot : Slot) :
    tables.set slot (tables.get slot) = tables := by
  cases tables
  simp [get, set]

/-- Tables are the same if they are so slot by slot. -/
theorem ext_get {a b : Tables} (same : ∀ slot, a.get slot = b.get slot) : a = b := by
  obtain ⟨rows⟩ := a
  obtain ⟨others⟩ := b
  congr
  ext i inside : 1
  obtain ⟨slot, rfl⟩ := Slot.exists_index inside
  exact same slot

end Tables

end TileCoder
