import TileCoder.Range.Reader
import TileCoder.Tile.Writer

/-!
Reading a tile.

A `TileReader` is a range decoder together with the tables that it adapts. It follows the tree of an
element and hands it what it reads; a row adapts as soon as its symbol is known.
-/

namespace TileCoder

open TileCoder.Range

/-- A tile that is being read. -/
structure TileReader where
  coder : Reader
  tables : Tables
  /-- Whether rows adapt to what is read. -/
  adapts : Bool
  memories : PlaneMemories

namespace TileReader

/-- A tile in which nothing is read yet. -/
def new (payload : List UInt8) (tables : Tables) (adapts : Bool) : TileReader :=
  { coder := .ofBytes payload
    tables
    adapts
    memories := .initial }

/-- Reads a symbol with a row, which adapts to it. -/
def symbol (tile : TileReader) (slot : Slot) : Except CodingError Nat × TileReader :=
  match tile.coder.symbol (tile.tables.get slot) with
  | (.error error, coder) => (.error error, { tile with coder })
  | (.ok value, coder) =>
      (.ok value,
        { tile with
          coder
          tables := if tile.adapts then tile.tables.update slot value else tile.tables })

/-- Reads a flag with the joint mass of some symbols of a row. -/
def gathered (tile : TileReader) (slot : Slot) (symbols : List Nat) :
    Except CodingError Nat × TileReader :=
  let (value, coder) := tile.coder.symbol ((tile.tables.get slot).gather symbols)
  (value, { tile with coder })

def bit (tile : TileReader) : Except CodingError Bool × TileReader :=
  let (value, coder) := tile.coder.bit
  (value, { tile with coder })

/-- Follows an element to its value. -/
def run {α : Type} : (tile : TileReader) → Parse α → Except CodingError α × TileReader
  | tile, .done value => (.ok value, tile)
  | tile, .fail error => (.error error, tile)
  | tile, .symbol slot next =>
      match tile.symbol slot with
      | (.error error, tile) => (.error error, tile)
      | (.ok value, tile) => tile.run (next value)
  | tile, .gathered slot symbols next =>
      match tile.gathered slot symbols with
      | (.error error, tile) => (.error error, tile)
      | (.ok value, tile) => tile.run (next (value ≠ 0))
  | tile, .bit next =>
      match tile.bit with
      | (.error error, tile) => (.error error, tile)
      | (.ok value, tile) => tile.run (next value)
  | tile, .remember plane memory next =>
      { tile with memories := tile.memories.set plane memory }.run next

end TileReader

end TileCoder
