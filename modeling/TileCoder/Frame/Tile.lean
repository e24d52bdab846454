import TileCoder.Tile.Primitive

/-!
The tiles of a frame.

A tile of a frame has a number, and while it is written its payload may have a budget. A
`FrameTile` checks the primitives that it is told to code, and reports when the payload outgrows
its budget. What has been coded by then stays coded.
-/

namespace TileCoder

open TileCoder.Range

/-- The tables that a tile leaves. -/
structure TileOutcome where
  id : Nat
  tables : Tables
  deriving DecidableEq

/-- A tile of a frame that is being written. -/
structure FrameTile (σ : Type) where
  id : Nat
  writer : TileWriter σ
  /-- The most bytes that the payload may have. -/
  budget : Option Nat

namespace FrameTile

variable {σ : Type} [Output σ]

/-- The number of bytes of the payload if it ended here, going by its position. -/
def size (tile : FrameTile σ) : Nat := (tile.writer.coder.tell + 7) / 8

/-- Refuses a payload of so many bytes if that is too much. -/
def checkBudget (tile : FrameTile σ) (bytes : Nat) : Except CodingError Unit :=
  match tile.budget with
  | none => .ok ()
  | some limit => if limit < bytes then .error (.overBudget limit) else .ok ()

/-- Carries on with what a writer has coded, and reports whether it is within the budget. -/
def charge (tile : FrameTile σ) (writer : TileWriter σ) : Except CodingError Unit × FrameTile σ :=
  let tile := { tile with writer }
  (tile.checkBudget tile.size, tile)

/-- Codes a primitive, once it is checked. -/
def put {α : Type} (tile : FrameTile σ) (primitive : Primitive α) (value : α) :
    Except CodingError Unit × FrameTile σ :=
  match primitive.check value with
  | .error error => (.error error, tile)
  | .ok () => tile.charge (tile.writer.put primitive value)

/-- Codes a symbol, once it is checked, and adapts its distribution. -/
def putAdapting (tile : FrameTile σ) (cdf : Cdf) (value : Nat) :
    Cdf × Except CodingError Unit × FrameTile σ :=
  match (Primitive.adapting cdf).check value with
  | .error error => (cdf, .error error, tile)
  | .ok () =>
      let (cdf, writer) := tile.writer.putAdapting cdf value
      (cdf, tile.charge writer)

/-- The payload, and the tables that the tile leaves. -/
def finish (tile : FrameTile Payload) : Except CodingError (List UInt8 × TileOutcome) := do
  let payload := tile.writer.coder.finish
  tile.checkBudget payload.length
  return (payload, ⟨tile.id, tile.writer.tables⟩)

end FrameTile

end TileCoder
