import TileCoder.Element.Neighbour
import TileCoder.Element.Program

/-!
Elements of blocks that are predicted from their own frame.
-/

namespace TileCoder.Intra

/-- Writes a luma mode with the given row. -/
def writeLumaMode (slot : Slot) (mode : PredictionMode) : Plan Unit := do
  checkSymbol mode.index PredictionMode.intraModes
  Plan.symbol slot mode.index

/-- Reads the mode of a symbol. -/
def readMode (slot : Slot) : Parse PredictionMode := do
  let symbol ← Parse.readSymbol slot
  Parse.ofOption (PredictionMode.ofIndex? symbol)

def keyModeSlot (near : Neighbours) : Slot :=
  let (above, left) := near.modeContext
  Table.keyLumaMode.at (5 * above + left)

def modeSlot (size : BlockSize) : Slot := Table.lumaMode.at size.group

/-- The row of chroma modes, by whether chroma may follow luma. -/
def chromaModeSlot (luma : PredictionMode) (size : BlockSize) : Slot :=
  if size.AllowsChromaFromLuma then Table.chromaModeFromLuma.at luma.index
  else Table.chromaMode.at luma.index

def writeChromaMode (luma : PredictionMode) (size : BlockSize) (mode : PredictionMode) :
    Plan Unit := do
  checkSymbol luma.index PredictionMode.intraModes
  let slot := chromaModeSlot luma size
  checkSymbol mode.index slot.table.symbols
  Plan.symbol slot mode.index

def readChromaMode (luma : PredictionMode) (size : BlockSize) : Parse PredictionMode := do
  checkSymbol luma.index PredictionMode.intraModes
  readMode (chromaModeSlot luma size)

/-- The largest refinement of an angle. -/
def maxAngleDelta : Nat := 3

def angleSlot (mode : PredictionMode) : Slot :=
  Table.angleDelta.at (mode.index - PredictionMode.vertical.index)

def writeAngleDelta (mode : PredictionMode) (delta : Int) : Plan Unit := do
  if ¬mode.IsDirectional ∨ maxAngleDelta < delta.natAbs then throw .invalidElement
  Plan.symbol (angleSlot mode) (delta + maxAngleDelta).toNat

def readAngleDelta (mode : PredictionMode) : Parse Int := do
  if ¬mode.IsDirectional then Parse.fail .invalidElement
  let symbol ← Parse.readSymbol (angleSlot mode)
  return symbol - maxAngleDelta

def filterSlot (size : BlockSize) : Slot := Table.filterIntra.at size.index

def writeFilterMode (mode : FilterIntraMode) : Plan Unit :=
  Plan.symbol Table.filterIntraMode.only mode.ctorIdx

def readFilterMode : Parse FilterIntraMode := do
  let symbol ← Parse.readSymbol Table.filterIntraMode.only
  Parse.ofOption FilterIntraMode.all[symbol]?

def copySlot : Slot := Table.intraCopy.only

end TileCoder.Intra
