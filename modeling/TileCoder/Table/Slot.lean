import TileCoder.Bits

/-!
The tables of a frame.

A `Table` is a list of rows, each a distribution over the same alphabet, and a `Slot` is one row of
one table. `Table.shape` gives the number of rows and the size of the alphabet, and `Table.nesting`
the arrays that the rows are kept in. Whatever the tables have is stored one table after another:
each place belongs to one table (`Table.exists_sum_map_take_add`, `Table.sum_map_take_add_inj`).
-/

namespace TileCoder

open scoped Plain

/-- What a table is about. -/
inductive Table where
  -- how a block is cut, by size and context; blocks of 16 up to 64 samples share a table
  | partition8 | partition128 | partition
  -- modes of a key frame, by the modes above and to the left; luma modes of other frames, by size
  -- group; chroma modes, by luma mode and by whether chroma may follow luma
  | keyLumaMode | lumaMode | chromaMode | chromaModeFromLuma
  | angleDelta
  -- the factors by which chroma follows luma: both signs, and a magnitude by the signs
  | lumaFactorSigns | lumaFactor
  | filterIntra | filterIntraMode
  -- sizes of palettes, by block size, and whether there is one, by neighbours or by that of luma
  | lumaPaletteSize | chromaPaletteSize | lumaPalette | chromaPalette
  -- ranks of a colour among so many, by context
  | lumaColor2 | lumaColor3 | lumaColor4 | lumaColor5 | lumaColor6 | lumaColor7 | lumaColor8
  | chromaColor2 | chromaColor3 | chromaColor4 | chromaColor5 | chromaColor6 | chromaColor7
  | chromaColor8
  -- flags of a block: copied from its own frame; and by neighbours, without residue, with nothing
  -- but references, predicted from other frames
  | intraCopy | skip | skipMode | isInter
  -- references: one or two, from different sides or from one; then the choices, by context
  | isCompound | isBidirectional | sameSideReference | singleReference | forwardReference
  | backwardReference
  -- modes with one reference, as three flags; going on in the list of candidates; modes with two
  | isNotNewMv | isNotGlobalMv | isNotNearestMv | nextCandidate | compoundMode
  -- how an inter block is also predicted from itself, and how two predictions are masked, by size
  | interIntra | interIntraMode | interIntraWedge | compoundType | wedgeIndex
  -- how motion varies, by size, with and without warping
  | motionMode | overlappedMotion
  | interpolationFilter | compoundIndex | compoundGroup
  -- kinds of transforms, a table for each set, by size and for intra blocks by direction
  | intraTransform1 | intraTransform2 | interTransform1 | interTransform2 | interTransform3
  -- splits of transforms that can be split once, and of larger ones; and in inter blocks, each
  | transformDepth8 | transformDepth | transformSplit
  -- segments without prediction, predicted from the frame before, and from neighbours
  | segmentId | segmentPredicted | spatialSegmentId
  -- changes of the quantizer, of all loop filters at once, and of each
  | quantizerDelta | filterDelta | filterDeltas
  -- filters of a unit: any, and where only one may be, whether it is
  | restoration | selfGuided | wiener
  -- motion vectors: which components are not zero, and for each its class, sign, and the parts of
  -- a sample in the lowest class (0) and in others
  | motionJoint
  | rowClass | rowQuarter0 | rowQuarter | rowSign | rowEighth0 | rowEighth | rowWhole0 | rowWhole
  | columnClass | columnQuarter0 | columnQuarter | columnSign | columnEighth0 | columnEighth
  | columnWhole0 | columnWhole
  deriving DecidableEq, Repr, Inhabited

namespace Table

/-- All tables, in the order in which their rows are stored. -/
def all : List Table :=
  [partition8, partition128, partition, keyLumaMode, lumaMode, chromaMode, chromaModeFromLuma,
    angleDelta, lumaFactorSigns, lumaFactor, filterIntra, filterIntraMode, lumaPaletteSize,
    chromaPaletteSize, lumaPalette, chromaPalette, lumaColor2, lumaColor3, lumaColor4,
    lumaColor5, lumaColor6, lumaColor7, lumaColor8, chromaColor2, chromaColor3, chromaColor4,
    chromaColor5, chromaColor6, chromaColor7, chromaColor8, intraCopy, skip, skipMode, isInter,
    isCompound, isBidirectional, sameSideReference, singleReference, forwardReference,
    backwardReference, isNotNewMv, isNotGlobalMv, isNotNearestMv, nextCandidate, compoundMode,
    interIntra, interIntraMode, interIntraWedge, compoundType, wedgeIndex, motionMode,
    overlappedMotion, interpolationFilter, compoundIndex, compoundGroup, intraTransform1,
    intraTransform2, interTransform1, interTransform2, interTransform3, transformDepth8,
    transformDepth, transformSplit, segmentId, segmentPredicted, spatialSegmentId,
    quantizerDelta, filterDelta, filterDeltas, restoration, selfGuided, wiener, motionJoint,
    rowClass, rowQuarter0, rowQuarter, rowSign, rowEighth0, rowEighth, rowWhole0, rowWhole,
    columnClass, columnQuarter0, columnQuarter, columnSign, columnEighth0, columnEighth,
    columnWhole0, columnWhole]

/-- The number of rows and the number of symbols. -/
def shape : Table → Nat × Nat
  | .partition8 | .interIntraMode | .filterDeltas => (4, 4)
  | .partition128 => (4, 8)
  | .partition => (12, 10)
  | .keyLumaMode => (25, 13)
  | .lumaMode => (4, 13)
  | .chromaMode => (13, 13)
  | .chromaModeFromLuma => (13, 14)
  | .angleDelta => (8, 7)
  | .lumaFactorSigns | .segmentId => (1, 8)
  | .lumaFactor => (6, 16)
  | .filterIntra | .interIntraWedge | .compoundType | .overlappedMotion => (22, 2)
  | .filterIntraMode => (1, 5)
  | .lumaPaletteSize | .chromaPaletteSize => (7, 7)
  | .lumaPalette | .transformSplit => (21, 2)
  | .chromaPalette | .isNotGlobalMv => (2, 2)
  | .lumaColor2 | .chromaColor2 | .isCompound | .isBidirectional => (5, 2)
  | .lumaColor3 | .chromaColor3 => (5, 3)
  | .lumaColor4 | .chromaColor4 => (5, 4)
  | .lumaColor5 | .chromaColor5 => (5, 5)
  | .lumaColor6 | .chromaColor6 => (5, 6)
  | .lumaColor7 | .chromaColor7 => (5, 7)
  | .lumaColor8 | .chromaColor8 => (5, 8)
  | .intraCopy | .selfGuided | .wiener | .rowSign | .rowEighth0 | .rowEighth | .rowWhole0
  | .columnSign | .columnEighth0 | .columnEighth | .columnWhole0 => (1, 2)
  | .skip | .skipMode | .nextCandidate | .transformDepth8 | .segmentPredicted => (3, 2)
  | .isInter | .interIntra | .interTransform3 => (4, 2)
  | .sameSideReference | .forwardReference => (9, 2)
  | .singleReference => (18, 2)
  | .backwardReference | .isNotNewMv | .isNotNearestMv | .compoundIndex | .compoundGroup => (6, 2)
  | .compoundMode => (8, 8)
  | .wedgeIndex => (22, 16)
  | .motionMode => (22, 3)
  | .interpolationFilter => (16, 3)
  | .intraTransform1 => (52, 7)
  | .intraTransform2 => (52, 5)
  | .interTransform1 => (4, 16)
  | .interTransform2 => (4, 12)
  | .transformDepth => (9, 3)
  | .spatialSegmentId => (3, 8)
  | .quantizerDelta | .filterDelta | .motionJoint | .rowQuarter | .columnQuarter => (1, 4)
  | .restoration => (1, 3)
  | .rowClass | .columnClass => (1, 11)
  | .rowQuarter0 | .columnQuarter0 => (2, 4)
  | .rowWhole | .columnWhole => (10, 2)

def rows (table : Table) : Nat := table.shape.1

/-- The arrays that the rows of a table are kept in, as their lengths, the outermost first; a table
without contexts is a row by itself. -/
def nesting : Table → List Nat
  | .lumaFactorSigns | .filterIntraMode | .intraCopy | .segmentId | .quantizerDelta | .filterDelta
  | .restoration | .selfGuided | .wiener | .motionJoint
  | .rowClass | .rowQuarter | .rowSign | .rowEighth0 | .rowEighth | .rowWhole0
  | .columnClass | .columnQuarter | .columnSign | .columnEighth0 | .columnEighth
  | .columnWhole0 => []
  | .keyLumaMode => [5, 5]
  | .lumaPalette => [7, 3]
  | .sameSideReference | .forwardReference | .transformDepth => [3, 3]
  | .singleReference => [3, 6]
  | .backwardReference => [3, 2]
  | .intraTransform1 | .intraTransform2 => [4, 13]
  | table => [table.rows]

/-- The number of rows in arrays of these lengths. -/
def rowsIn : (lengths : List Nat) → Nat
  | [] => 1
  | length :: inner => length * rowsIn inner

/-- The size of the alphabet. -/
def symbols (table : Table) : Nat := table.shape.2

/-- The number of values of a row: one for each symbol, and the counter. -/
def rowSize (table : Table) : Nat := table.symbols + 1

def size (table : Table) : Nat := table.rows * table.rowSize

theorem rows_pos (table : Table) : 0 < table.rows := by cases table <;> decide

theorem two_le_symbols (table : Table) : 2 ≤ table.symbols := by cases table <;> decide

theorem symbols_le (table : Table) : table.symbols ≤ 16 := by cases table <;> decide

/-- The number of rows before those of a table. -/
def offset (table : Table) : Nat := ((all.take table.ctorIdx).map rows).sum

def totalRows : Nat := (all.map rows).sum

theorem all_getElem? (table : Table) : all[table.ctorIdx]? = some table := by cases table <;> rfl

theorem sum_take_add_le (counts : List Nat) {i count : Nat} (entry : counts[i]? = some count) :
    (counts.take i).sum + count ≤ counts.sum := by
  induction counts generalizing i with
  | nil => simp at entry
  | cons first rest ih =>
      cases i with
      | zero => simp_all
      | succ i =>
          have := ih (i := i) (by simpa using entry)
          simp only [List.take_succ_cons, List.sum_cons]
          omega

/-- What the tables before a table have, and what it has itself, is part of what all tables have. -/
theorem sum_map_take_add_le (count : Table → Nat) (table : Table) :
    ((all.take table.ctorIdx).map count).sum + count table ≤ (all.map count).sum := by
  rw [List.map_take]
  exact sum_take_add_le _ (by rw [List.getElem?_map, all_getElem?]; rfl)

/-- What a table has comes before what a later one has. -/
theorem sum_map_take_add_le_take (count : Table → Nat) {s t : Table}
    (before : s.ctorIdx < t.ctorIdx) :
    ((all.take s.ctorIdx).map count).sum + count s ≤ ((all.take t.ctorIdx).map count).sum := by
  rw [List.map_take, List.map_take]
  have entry : ((all.map count).take t.ctorIdx)[s.ctorIdx]? = some (count s) := by
    rw [List.getElem?_take_of_lt before, List.getElem?_map, all_getElem?]
    rfl
  have := sum_take_add_le _ entry
  rwa [List.take_take, Nat.min_eq_left (Nat.le_of_lt before)] at this

/-- Nothing that tables have belongs to two of them. -/
theorem sum_map_take_add_inj (count : Table → Nat) {s t : Table} {i j : Nat} (i_lt : i < count s)
    (j_lt : j < count t) (same : ((all.take s.ctorIdx).map count).sum + i =
      ((all.take t.ctorIdx).map count).sum + j) : s = t ∧ i = j := by
  rcases Nat.lt_trichotomy s.ctorIdx t.ctorIdx with before | equal | behind
  · have := sum_map_take_add_le_take count before
    omega
  · obtain rfl : s = t := Option.some.inj <| by rw [← all_getElem?, ← all_getElem?, equal]
    exact ⟨rfl, Nat.add_left_cancel same⟩
  · have := sum_map_take_add_le_take count behind
    omega

/-- Every place behind some counts lies within one of them. -/
theorem exists_sum_take_add {counts : List Nat} {i : Nat} (inside : i < counts.sum) :
    ∃ k count r, counts[k]? = some count ∧ r < count ∧ (counts.take k).sum + r = i := by
  induction counts generalizing i with
  | nil => simp at inside
  | cons first rest ih =>
      rw [List.sum_cons] at inside
      by_cases here : i < first
      · exact ⟨0, first, i, rfl, here, by simp⟩
      · obtain ⟨k, count, r, entry, below, place⟩ := ih (i := i - first) (by omega)
        refine ⟨k + 1, count, r, by simpa using entry, below, ?_⟩
        rw [List.take_succ_cons, List.sum_cons]
        omega

theorem nodup_all : all.Nodup := by decide +kernel

/-- Each of all the things that tables have belongs to one of them. -/
theorem exists_sum_map_take_add (count : Table → Nat) {i : Nat} (inside : i < (all.map count).sum) :
    ∃ table r, r < count table ∧ ((all.take table.ctorIdx).map count).sum + r = i := by
  obtain ⟨k, _, r, entry, below, place⟩ := exists_sum_take_add inside
  rw [List.getElem?_map] at entry
  obtain ⟨table, listed, rfl⟩ := Option.map_eq_some_iff.mp entry
  obtain ⟨k_lt, -⟩ := List.getElem?_eq_some_iff.mp listed
  have same : k = table.ctorIdx :=
    (List.getElem?_inj k_lt nodup_all).mp (listed.trans table.all_getElem?.symm)
  refine ⟨table, r, below, ?_⟩
  rw [List.map_take, ← same, place]

end Table

/-- One row of one table. -/
structure Slot where
  table : Table
  row : Fin table.rows
  deriving DecidableEq, Repr

namespace Slot

/-- Where the row is stored. -/
def index (slot : Slot) : Nat := slot.table.offset + slot.row

theorem index_lt (slot : Slot) : slot.index < Table.totalRows := by
  have := Table.sum_map_take_add_le Table.rows slot.table
  have := slot.row.isLt
  unfold index Table.offset Table.totalRows
  omega

theorem index_injective {a b : Slot} (same : a.index = b.index) : a = b := by
  obtain ⟨s, i⟩ := a
  obtain ⟨t, j⟩ := b
  obtain ⟨rfl, rows⟩ := Table.sum_map_take_add_inj Table.rows i.isLt j.isLt same
  rw [Fin.ext rows]

/-- No row is stored but those that have a slot. -/
theorem exists_index {i : Nat} (inside : i < Table.totalRows) : ∃ slot : Slot, slot.index = i := by
  obtain ⟨table, row, below, place⟩ := Table.exists_sum_map_take_add Table.rows inside
  exact ⟨⟨table, row, below⟩, place⟩

end Slot

/-- The row of a table; a number past the last row stands for the last row. -/
def Table.at (table : Table) (row : Nat) : Slot :=
  ⟨table, ⟨min row (table.rows - 1), by have := table.rows_pos; omega⟩⟩

/-- The only row of a table without contexts. -/
def Table.only (table : Table) : Slot := table.at 0

@[simp] theorem Table.table_at (table : Table) (row : Nat) : (table.at row).table = table := rfl

theorem Table.row_at {table : Table} {row : Nat} (inside : row < table.rows) :
    (table.at row).row = ⟨row, inside⟩ := by
  simp only [Table.at, Fin.mk.injEq]
  omega

end TileCoder
