import TileCoder.Header.Frame

/-!
Tile groups: the payloads of the tiles of a frame, one after another.

Every payload but the last stands behind a field with its size less one, the lowest byte first. The
last one takes all that is left.
-/

namespace TileCoder.Header.TileGroup

open scoped Plain

/-- The fewest bytes of a size field that suit all payloads. -/
def minSizeBytes (tiles : List (List UInt8)) : Nat :=
  let largest := (tiles.map fun tile => tile.length - 1).foldl max 0
  if largest < 256 then 1
  else if largest < 65536 then 2
  else if largest < 16777216 then 3
  else 4

/-- The size field of a payload, if there is one for it. -/
def sizeField (sizeBytes : Nat) (tile : List UInt8) : Except CodingError (List UInt8) :=
  if 256 ^ sizeBytes ≤ tile.length - 1 then .error .invalidElement
  else .ok (FieldWriter.lowBytesFirst sizeBytes (tile.length - 1))

def checkNonempty (tile : List UInt8) : Except CodingError Unit :=
  if tile.isEmpty then .error .invalidElement else .ok ()

def joinTiles (sizeBytes : Nat) : List (List UInt8) → Except CodingError (List UInt8)
  | [] => .ok []
  | [last] => do
      checkNonempty last
      return last
  | tile :: rest => do
      checkNonempty tile
      let field ← sizeField sizeBytes tile
      let body ← joinTiles sizeBytes rest
      return field ++ tile ++ body

/-- Refuses a size field of no bytes or of more than four. -/
def checkFieldSize (sizeBytes : Nat) : Except CodingError Unit :=
  if TileLayout.IsFieldSize sizeBytes then .ok () else .error .invalidElement

/-- The body of a tile group. -/
def write (tiles : List (List UInt8)) (sizeBytes : Nat) : Except CodingError (List UInt8) := do
  checkFieldSize sizeBytes
  joinTiles sizeBytes tiles

/-- The number whose bytes these are, the lowest first. -/
def numberOfBytes (bytes : List UInt8) : Nat :=
  bytes.foldr (fun byte high => byte.toNat + 256 * high) 0

/-- Cuts off a payload, which is not empty. -/
def takeTile (size : Nat) (data : List UInt8) : Except CodingError (List UInt8 × List UInt8) :=
  if size = 0 ∨ data.length < size then .error .truncatedStream
  else .ok (data.splitAt size)

/-- Cuts off a size field: the size, and what follows. -/
def takeSize (sizeBytes : Nat) (data : List UInt8) : Except CodingError (Nat × List UInt8) :=
  if data.length < sizeBytes then .error .truncatedStream
  else .ok (numberOfBytes (data.take sizeBytes) + 1, data.drop sizeBytes)

/-- Cuts a body into payloads. -/
def splitTiles (sizeBytes : Nat) : (count : Nat) → List UInt8 →
    Except CodingError (List (List UInt8))
  | 0, _ => .ok []
  | 1, data => do
      let (last, _) ← takeTile data.length data
      return [last]
  | count + 2, data => do
      let (size, data) ← takeSize sizeBytes data
      let (tile, data) ← takeTile size data
      let rest ← splitTiles sizeBytes (count + 1) data
      return tile :: rest

/-- The payloads of a tile group. -/
def read (data : List UInt8) (count sizeBytes : Nat) :
    Except CodingError (List (List UInt8)) := do
  checkFieldSize sizeBytes
  splitTiles sizeBytes count data

end TileCoder.Header.TileGroup
