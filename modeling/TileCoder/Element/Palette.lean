import TileCoder.Element.Neighbour
import TileCoder.Element.Program

/-!
Palettes and the maps of their colours.

The colours of a map are coded along its anti-diagonals. Each is coded by its rank among all
colours, and the ranks put first the colours of the three neighbours that are already known.
-/

namespace TileCoder.Palette

open scoped Plain

/-- The fewest and the most colours of a palette. -/
def minColors : Nat := 2

def maxColors : Nat := 8

/-- Refuses a palette of another size. -/
def checkSize (colors : Nat) : Except CodingError Unit :=
  if minColors ≤ colors ∧ colors ≤ maxColors then .ok () else .error .invalidElement

/-- The context of a block size that may have a palette. -/
def sizeContext (size : BlockSize) : Except CodingError Nat :=
  match size.paletteContext? with
  | some context => .ok context
  | none => .error .invalidElement

def lumaSlot (near : Neighbours) (sizeContext : Nat) : Slot :=
  Table.lumaPalette.at (3 * sizeContext + near.paletteContext)

def writeLuma (near : Neighbours) (size : BlockSize) (enabled : Bool) : Plan Unit := do
  let context ← sizeContext size
  Plan.flag (lumaSlot near context) enabled

def readLuma (near : Neighbours) (size : BlockSize) : Parse Bool := do
  let context ← sizeContext size
  Parse.readFlag (lumaSlot near context)

def chromaSlot (lumaColors : Nat) : Slot :=
  Table.chromaPalette.at (if 0 < lumaColors then 1 else 0)

def sizeSlot (luma : Bool) (context : Nat) : Slot :=
  (if luma then Table.lumaPaletteSize else Table.chromaPaletteSize).at context

def writeSize (luma : Bool) (size : BlockSize) (colors : Nat) : Plan Unit := do
  checkSize colors
  let context ← sizeContext size
  Plan.symbol (sizeSlot luma context) (colors - minColors)

def readSize (luma : Bool) (size : BlockSize) : Parse Nat := do
  let context ← sizeContext size
  let symbol ← Parse.readSymbol (sizeSlot luma context)
  return symbol + minColors

def rankTable (luma : Bool) (colors : Nat) : Table :=
  match luma, colors with
  | true, 2 => .lumaColor2
  | true, 3 => .lumaColor3
  | true, 4 => .lumaColor4
  | true, 5 => .lumaColor5
  | true, 6 => .lumaColor6
  | true, 7 => .lumaColor7
  | true, _ => .lumaColor8
  | false, 2 => .chromaColor2
  | false, 3 => .chromaColor3
  | false, 4 => .chromaColor4
  | false, 5 => .chromaColor5
  | false, 6 => .chromaColor6
  | false, 7 => .chromaColor7
  | false, _ => .chromaColor8

def writeRank (luma : Bool) (colors context rank : Nat) : Plan Unit := do
  checkSize colors
  checkSymbol rank colors
  Plan.symbol ((rankTable luma colors).at context) rank

def readRank (luma : Bool) (colors context : Nat) : Parse Nat := do
  checkSize colors
  Parse.readSymbol ((rankTable luma colors).at context)

/-- The colours that are known around a position: those beside it and above it, and the one in the
corner between. -/
structure Around where
  beside : Option Nat
  corner : Option Nat
  above : Option Nat
  deriving DecidableEq, Repr

/-- The number of neighbours. -/
def voters : Nat := 3

namespace Around

/-- What a map has around a position. -/
def of (map : Array Nat) (stride row column : Nat) : Around where
  beside := if 0 < column then map[row * stride + column - 1]? else none
  corner := if 0 < row ∧ 0 < column then map[(row - 1) * stride + column - 1]? else none
  above := if 0 < row then map[(row - 1) * stride + column]? else none

/-- What a neighbour adds to the score of a colour. -/
def vote (neighbour : Option Nat) (weight color : Nat) : Nat :=
  if neighbour = some color then weight else 0

/-- How much the neighbours speak for a colour: twice for those beside and above, once for the one
between. -/
def score (around : Around) (color : Nat) : Nat :=
  vote around.beside 2 color + vote around.corner 1 color + vote around.above 2 color

end Around

/-- A colour and how much the neighbours speak for it. -/
structure Score where
  color : Nat
  score : Nat
  deriving DecidableEq, Repr

/-- All colours and what the neighbours say about them. -/
def scores (map : Array Nat) (stride row column : Nat) : List Score :=
  (List.range maxColors).map fun color => ⟨color, (Around.of map stride row column).score color⟩

/-- Goes on from a place, where the best score so far was at another one: the place of the best score
in the end, which is the first of those that score as much. -/
def bestPlace (best score place : Nat) : List Score → Nat
  | [] => best
  | entry :: rest =>
      if score < entry.score then bestPlace place entry.score (place + 1) rest
      else bestPlace best score (place + 1) rest

/-- Brings the best of the entries to the front so many times; the entries before it make room. -/
def selectBest : (rounds : Nat) → List Score → List Score
  | 0, entries => entries
  | _ + 1, [] => []
  | rounds + 1, first :: rest =>
      let best := bestPlace 0 first.score 1 rest
      (first :: rest).getD best first :: selectBest rounds ((first :: rest).eraseIdx best)

/-- The colours by rank, those past the palette's last at the end, each with its score. No more of
them have a score than there are neighbours. -/
def ranking (map : Array Nat) (stride row column colors : Nat) : List Score :=
  let all := scores map stride row column
  selectBest voters (all.take colors) ++ all.drop colors

/-- How much the best scores count. -/
def scoreWeights : List Nat := [1, 2, 2]

/-- What the best scores say about which neighbours agree. -/
def hash (ranking : List Score) : Nat :=
  (List.zipWith (fun entry weight => entry.score * weight) ranking scoreWeights).sum

/-- The contexts of the hashes up to 8. -/
def hashContexts : List Nat := [0, 0, 0, 0, 0, 4, 3, 2, 1]

/-- The context of a rank. -/
def rankContext (ranking : List Score) : Nat := hashContexts.getD (min (hash ranking) 8) 0

/-- The context of the colour at a position, and the colours in the order of their ranks. -/
def colorContext (map : Array Nat) (stride row column colors : Nat) : Nat × List Nat :=
  let ranked := ranking map stride row column colors
  (rankContext ranked, ranked.map (·.color))

/-- One less than the sum of the extents, as a machine word: the number of anti-diagonals, if it is
one. -/
def diagonals (width height : Nat) : Nat := ((width + height - 1 : Int) % addressSpace).toNat

/-- The positions of a map but the first, row and column: along the anti-diagonals, and from the
upper right on each of them. -/
def wavefront (width height : Nat) : List (Nat × Nat) :=
  (List.range (diagonals width height - 1)).flatMap fun before =>
    let diagonal := before + 1
    let first := diagonal - (height - 1)
    let last := min diagonal (width - 1)
    (List.range (last + 1 - first)).map fun step => (diagonal - (last - step), last - step)

/-- What a colour map belongs to: its plane, the number of colours and its extent. -/
structure MapSite where
  luma : Bool
  colors : Nat
  width : Nat
  height : Nat
  deriving DecidableEq, Repr

namespace MapSite

def area (site : MapSite) : Nat := site.width * site.height

/-- Refuses an empty map, and an array that does not hold all of it. There is no saying so of a map
with more entries than can be counted. -/
def checkExtent (site : MapSite) (length : Nat) : Except CodingError Unit :=
  if site.width = 0 ∨ site.height = 0 then .error .invalidElement
  else if addressSpace ≤ site.area then .error .overflow
  else if length < site.area then .error .invalidElement
  else .ok ()

def positions (site : MapSite) : List (Nat × Nat) := wavefront site.width site.height

end MapSite

/-- Accepts colours that the palette has. -/
def checkColors (colors : Nat) : List Nat → Except CodingError Unit
  | [] => .ok ()
  | color :: rest => do
      checkSymbol color colors
      checkColors colors rest

/-- The rank of a colour, if it is one of these. -/
def rankOf (order : List Nat) (color : Nat) : Except CodingError Nat :=
  if color ∈ order then .ok (order.idxOf color) else .error .invalidElement

/-- Writes the ranks of the colours at some positions. -/
def writeRanks (site : MapSite) (map : Array Nat) : List (Nat × Nat) → Plan Unit
  | [] => pure ()
  | (row, column) :: rest => do
      let (context, order) := colorContext map site.width row column site.colors
      let color := map.getD (row * site.width + column) 0
      let rank ← rankOf (order.take site.colors) color
      writeRank site.luma site.colors context rank
      writeRanks site map rest

/-- Writes the first colours of an array as a map. -/
def writeMap (site : MapSite) (map : Array Nat) : Plan Unit := do
  checkSize site.colors
  site.checkExtent map.size
  checkColors site.colors (map.toList.take site.area)
  Plan.bits (Code.uniform site.colors (map.getD 0 0))
  writeRanks site map site.positions

/-- Reads the colours at some positions into a map. -/
def readRanks (site : MapSite) : (positions : List (Nat × Nat)) → (map : Array Nat) →
    Parse (Array Nat)
  | [], map => return map
  | (row, column) :: rest, map => do
      let (context, order) := colorContext map site.width row column site.colors
      let rank ← readRank site.luma site.colors context
      readRanks site rest (map.setIfInBounds (row * site.width + column) (order.getD rank 0))

/-- Reads the colours of a map into the first entries of an array that holds all of it. -/
def readColors (site : MapSite) (map : Array Nat) : Parse (Array Nat) := do
  let first ← Code.readUniform site.colors
  readRanks site site.positions (map.setIfInBounds 0 first)

/-- Reads a map into the first entries of an array. -/
def readMap (site : MapSite) (map : Array Nat) : Parse (Array Nat) := do
  checkSize site.colors
  site.checkExtent map.size
  readColors site map

/-- Reads a map into the first of `room` entries, the others of which stay zero. They are made only
once the map is known to fit. -/
def readNewMap (site : MapSite) (room : Nat) : Parse (Array Nat) := do
  checkSize site.colors
  site.checkExtent room
  readColors site (Array.replicate room 0)

theorem readNewMap_eq (site : MapSite) (room : Nat) :
    readNewMap site room = readMap site (Array.replicate room 0) := by
  simp [readNewMap, readMap]

end TileCoder.Palette
