import TileCoder.Frame.Params
import TileCoder.Header.Field

/-!
The fields of a frame header that belong to its tables, and to the layout of its tiles.

A frame of intra blocks refers to no others and starts from the trained tables. A frozen frame
leaves the tables it started from, which the header need not say. The layout is only of interest
where there is more than one tile.
-/

namespace TileCoder

open scoped Plain

/-- How the tiles of a frame are framed in their group. -/
structure TileLayout where
  /-- Binary logarithm of the number of tiles. -/
  tilesLog : Nat
  /-- The number of bytes of a size field. -/
  sizeBytes : Nat
  deriving DecidableEq, Repr

namespace TileLayout

def tiles (layout : TileLayout) : Nat := 2 ^ layout.tilesLog

/-- The largest number of bytes of a size field. -/
def maxSizeBytes : Nat := 4

/-- Whether a size field may have so many bytes. -/
def IsFieldSize (bytes : Nat) : Prop := 1 ≤ bytes ∧ bytes ≤ maxSizeBytes

instance (bytes : Nat) : Decidable (IsFieldSize bytes) := inferInstanceAs (Decidable (_ ∧ _))

end TileLayout

namespace Header

/-- What a frame header says. -/
structure FrameFields where
  params : FrameParams
  layout : TileLayout
  deriving DecidableEq, Repr

namespace FrameFields

/-- Whether the header of a frame can say it. -/
def IsCodable (fields : FrameFields) (intraOnly : Bool) : Prop :=
  fields.params.IsValid ∧ (intraOnly = true → fields.params.primary = FrameParams.noPrimary) ∧
    (0 < fields.layout.tilesLog →
      fields.params.chosenTile < fields.layout.tiles ∧
        TileLayout.IsFieldSize fields.layout.sizeBytes)

instance (fields : FrameFields) (intraOnly : Bool) : Decidable (fields.IsCodable intraOnly) :=
  inferInstanceAs (Decidable (_ ∧ (_ → _) ∧ (_ → _)))

/-- The digits of a reference, and of a slot. -/
def refWidth : Nat := 3

def writeSlots : List Nat → FieldWriter Unit
  | [] => pure ()
  | slot :: rest => do
      FieldWriter.field refWidth slot
      writeSlots rest

/-- Writes the chosen tile and the number of bytes of a size field, unless there is one tile only. -/
def writeLayout (fields : FrameFields) : FieldWriter Unit :=
  let layout := fields.layout
  if 0 < layout.tilesLog then do
    FieldWriter.field layout.tilesLog (fields.params.chosenTile % wordSize)
    FieldWriter.field 2 (layout.sizeBytes - 1)
  else pure ()

def write (fields : FrameFields) (intraOnly : Bool) : FieldWriter Unit := do
  let params := fields.params
  if ¬fields.IsCodable intraOnly then throw .doesNotFit
  FieldWriter.bit params.frozen
  if !intraOnly then FieldWriter.field refWidth params.primary
  FieldWriter.field slotCount params.refresh
  if !intraOnly then writeSlots params.slots.toList
  if !params.frozen then FieldWriter.bit params.leavesStart
  fields.writeLayout

def readSlots : (count : Nat) → FieldReader (Vector Nat count)
  | 0 => return #v[]
  | count + 1 => do
      let slots ← readSlots count
      let slot ← FieldReader.field refWidth
      return slots.push slot

/-- Reads the chosen tile and the number of bytes of a size field; where there is one tile only,
they are understood. -/
def readLayout (tilesLog : Nat) : FieldReader (Nat × Nat) := do
  if tilesLog = 0 then return (0, TileLayout.maxSizeBytes)
  let chosenTile ← FieldReader.field tilesLog
  let sizeBytes ← FieldReader.field 2
  return (chosenTile, sizeBytes + 1)

def read (intraOnly : Bool) (tilesLog : Nat) : FieldReader FrameFields := do
  let frozen ← FieldReader.bit
  let primary ←
    if intraOnly then pure FrameParams.noPrimary else FieldReader.field refWidth
  let refresh ← FieldReader.field slotCount
  let slots ←
    if intraOnly then pure FrameParams.keyFrame.slots else readSlots Reference.interCount
  let leavesStart ← if frozen then pure true else FieldReader.bit
  let (chosenTile, sizeBytes) ← readLayout tilesLog
  return ⟨⟨primary, slots, refresh, frozen, leavesStart, chosenTile⟩, ⟨tilesLog, sizeBytes⟩⟩

end FrameFields

end Header

end TileCoder
