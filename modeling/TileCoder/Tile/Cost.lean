import TileCoder.Element.Restoration
import TileCoder.Tile.Writer

/-!
What elements would cost if they were written next, in eighths of a bit.
-/

namespace TileCoder.TileWriter

open TileCoder.Range

variable {σ : Type} [Output σ]

/-- The cost of a restoration filter where a unit may have any. -/
def restorationCost (tile : TileWriter σ) (plane : Plane) (filter : RestorationFilter) : Nat :=
  let kind := tile.coder.symbolCost (tile.tables.get Table.restoration.only) filter.kindSymbol
  (kind + filter.detailCost plane (tile.memories.get plane)) % wordSize

end TileCoder.TileWriter
