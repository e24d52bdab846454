import TileCoder.Frame.Slots
import TileCoder.Frame.Tile

/-!
Frames.

A frame starts from trained tables or from those of an earlier frame, and each of its tiles from
the tables of the frame. When it ends, it leaves the tables of one of its tiles, or the ones it
started from, in the slots that it overwrites. All tables have their counters at zero where a
frame starts and where it ends. Writers and readers handle frames alike.
-/

namespace TileCoder

open TileCoder.Range

/-- A frame between its start and its end. -/
structure Frame where
  params : FrameParams
  /-- The tables that each tile starts from. -/
  start : Tables
  /-- The most bytes that the payload of a tile may have. -/
  budget : Option Nat

namespace Frame

/-- The tables that a frame starts from. -/
def startTables (params : FrameParams) (slots : ReferenceSlots) : Except CodingError Tables :=
  match params.primarySlot? with
  | none => .ok Tables.initial
  | some slot =>
      match slots.get? slot with
      | some tables => .ok tables
      | none => .error (.missingReference slot)

def begin (params : FrameParams) (slots : ReferenceSlots) : Except CodingError Frame := do
  params.check
  let tables ← startTables params slots
  return ⟨params, tables.resetCounts, none⟩

/-- Limits the payload of every tile. -/
def withBudget (frame : Frame) (bytes : Nat) : Frame := { frame with budget := some bytes }

def writeTile (frame : Frame) (id : Nat) : FrameTile Payload :=
  ⟨id, .new frame.start frame.params.adapts, frame.budget⟩

def readTile (frame : Frame) (payload : List UInt8) : TileReader :=
  .new payload frame.start frame.params.adapts

/-- Writes the first `count` tiles, each by what `code` does with it. -/
def writeTiles (frame : Frame) (count : Nat)
    (code : FrameTile Payload → Except CodingError (FrameTile Payload)) :
    Except CodingError (List (List UInt8 × TileOutcome)) :=
  (List.range count).mapM fun id => do (← code (frame.writeTile id)).finish

/-- Reads the tiles with these payloads, each by what `decode` does with it. -/
def readTiles {α : Type} (frame : Frame) (payloads : List (List UInt8))
    (decode : (id : Nat) → TileReader → Except CodingError (α × TileReader)) :
    Except CodingError (List (α × TileOutcome)) :=
  payloads.zipIdx.mapM fun (payload, id) => do
    let (value, tile) ← decode id (frame.readTile payload)
    return (value, ⟨id, tile.tables⟩)

/-- The tables that a frame leaves. -/
def endTables (frame : Frame) (chosen : TileOutcome) : Tables :=
  (if frame.params.leavesStart then frame.start else chosen.tables).resetCounts

/-- Ends a frame with the outcome of its chosen tile: the tables that it leaves, and the slots with
them. -/
def finish (frame : Frame) (chosen : TileOutcome) (slots : ReferenceSlots) :
    Except CodingError (Tables × ReferenceSlots) :=
  if chosen.id ≠ frame.params.chosenTile then .error .invalidElement
  else
    let tables := frame.endTables chosen
    .ok (tables, slots.refresh frame.params.refresh tables)

end Frame

end TileCoder
