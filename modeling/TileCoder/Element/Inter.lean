import TileCoder.Element.Neighbour
import TileCoder.Element.Program

/-!
Elements of blocks that are predicted from other frames.
-/

namespace TileCoder.Inter

/-! ## Flags of neighbours -/

def skipSlot (near : Neighbours) : Slot := Table.skip.at near.skipContext

def skipModeSlot (near : Neighbours) : Slot := Table.skipMode.at near.skipModeContext

def isInterSlot (near : Neighbours) : Slot := Table.isInter.at near.interContext

def compoundGroupSlot (near : Neighbours) : Slot := Table.compoundGroup.at near.groupContext

def compoundIndexSlot (near : Neighbours) (equalDistance : Bool) : Slot :=
  Table.compoundIndex.at (near.weightContext equalDistance)

/-! ## Modes

The context of a mode packs three numbers: three digits for a new vector, one for the motion of the
frame and four for the candidates. -/

def newMvPart (context : Nat) : Nat := context % 8

def globalMvPart (context : Nat) : Nat := context / 8 % 2

def candidatePart (context : Nat) : Nat := context / 16 % 16

def newMvSlot (context : Nat) : Slot := Table.isNotNewMv.at (min (newMvPart context) 5)

def globalMvSlot (context : Nat) : Slot := Table.isNotGlobalMv.at (globalMvPart context)

def nearestMvSlot (context : Nat) : Slot := Table.isNotNearestMv.at (min (candidatePart context) 5)

/-- Writes a mode with one reference. -/
def writeMode (context : Nat) (mode : PredictionMode) : Plan Unit := do
  if mode ∉ [.nearestMv, .nearMv, .globalMv, .newMv] then throw .invalidElement
  Plan.flag (newMvSlot context) (mode ≠ .newMv)
  if mode ≠ .newMv then
    Plan.flag (globalMvSlot context) (mode ≠ .globalMv)
    if mode ≠ .globalMv then Plan.flag (nearestMvSlot context) (mode ≠ .nearestMv)

def readMode (context : Nat) : Parse PredictionMode := do
  if !(← Parse.readFlag (newMvSlot context)) then return .newMv
  if !(← Parse.readFlag (globalMvSlot context)) then return .globalMv
  return if ← Parse.readFlag (nearestMvSlot context) then .nearMv else .nearestMv

/-- The context of a mode with two references. -/
def compoundModeContext (context : Nat) : Nat :=
  let new := newMvPart context
  let candidates := candidatePart context
  if candidates < 2 then min new 1
  else if candidates < 4 then min (new + 1) 4
  else min (max new 1 + 3) 7

def compoundModeSlot (context : Nat) : Slot := Table.compoundMode.at (compoundModeContext context)

/-- Writes a mode with two references. -/
def writeCompoundMode (context : Nat) (mode : PredictionMode) : Plan Unit := do
  if ¬mode.IsCompound then throw .invalidElement
  Plan.symbol (compoundModeSlot context) (mode.index - PredictionMode.nearestNearestMv.index)

def readCompoundMode (context : Nat) : Parse PredictionMode := do
  let symbol ← Parse.readSymbol (compoundModeSlot context)
  Parse.ofOption
    (PredictionMode.ofIndex? (symbol + PredictionMode.nearestNearestMv.index))

/-! ## The list of candidates

The candidates for a motion vector stand in a list by falling weight. An index into it is coded as a
run of flags: whether to go on, at most twice. -/

/-- The weight from which on a candidate is a close one. -/
def closeWeight : Nat := 640

/-- The context of going on from a candidate: whether it and the next one are close. -/
def candidateContext (weights : List Nat) (i : Nat) : Nat :=
  let close (j : Nat) : Bool := closeWeight ≤ weights.getD j 0
  match close i, close (i + 1) with
  | _, true => 0
  | true, false => 1
  | false, false => 2

def candidateSlot (context : Nat) : Slot := Table.nextCandidate.at context

/-- The first index that a mode may have; none if the mode has no index. -/
def firstCandidate? (mode : PredictionMode) : Option Nat :=
  if mode = .newMv ∨ mode = .newNewMv then some 0
  else if mode.hasNearMv then some 1
  else none

/-- The flags of a mode with an index, from the index `i` on. -/
def writeFlags (weights : List Nat) (index : Nat) : (flags i : Nat) → Plan Unit
  | 0, i =>
      let last := min i (max (weights.length - 1) (i - 2))
      if index = last then pure () else throw .invalidElement
  | flags + 1, i =>
      if i + 1 < weights.length then do
        Plan.flag (candidateSlot (candidateContext weights i)) (i < index)
        if i < index then writeFlags weights index flags (i + 1)
        else if index ≠ i then throw .invalidElement
      else writeFlags weights index flags (i + 1)

def writeCandidate (mode : PredictionMode) (weights : List Nat) (index : Nat) : Plan Unit :=
  match firstCandidate? mode with
  | none => pure ()
  | some first => writeFlags weights index 2 first

/-- Reads flags from the index `i` on; `index` is what they have said so far. -/
def readFlags (weights : List Nat) : (flags i index : Nat) → Parse Nat
  | 0, _, index => return index
  | flags + 1, i, index =>
      if i + 1 < weights.length then do
        if ← Parse.readFlag (candidateSlot (candidateContext weights i)) then
          readFlags weights flags (i + 1) (i + 1)
        else return i
      else readFlags weights flags (i + 1) index

def readCandidate (mode : PredictionMode) (weights : List Nat) : Parse Nat :=
  match firstCandidate? mode with
  | none => return 0
  | some first => readFlags weights 2 first first

/-! ## Masks and motion -/

def interIntraSlot (size : BlockSize) : Slot := Table.interIntra.at size.group

def interIntraModeSlot (size : BlockSize) : Slot := Table.interIntraMode.at size.group

def writeInterIntraMode (size : BlockSize) (mode : InterIntraMode) : Plan Unit :=
  Plan.symbol (interIntraModeSlot size) mode.ctorIdx

def readInterIntraMode (size : BlockSize) : Parse InterIntraMode := do
  let symbol ← Parse.readSymbol (interIntraModeSlot size)
  Parse.ofOption InterIntraMode.all[symbol]?

def interIntraWedgeSlot (size : BlockSize) : Slot := Table.interIntraWedge.at size.index

def wedges : Nat := 16

def wedgeSlot (size : BlockSize) : Slot := Table.wedgeIndex.at size.index

def writeWedge (size : BlockSize) (wedge : Nat) : Plan Unit := do
  checkSymbol wedge wedges
  Plan.symbol (wedgeSlot size) wedge

def readWedge (size : BlockSize) : Parse Nat := Parse.readSymbol (wedgeSlot size)

def compoundTypeSlot (size : BlockSize) : Slot := Table.compoundType.at size.index

def writeCompoundType (size : BlockSize) (type : CompoundType) : Plan Unit :=
  Plan.symbol (compoundTypeSlot size) type.ctorIdx

def readCompoundType (size : BlockSize) : Parse CompoundType := do
  let symbol ← Parse.readSymbol (compoundTypeSlot size)
  Parse.ofOption CompoundType.all[symbol]?

def motionModeSlot (size : BlockSize) : Slot := Table.motionMode.at size.index

def overlappedSlot (size : BlockSize) : Slot := Table.overlappedMotion.at size.index

/-- Writes how motion varies; without warping, only whether it is overlapped. -/
def writeMotionMode (size : BlockSize) (mayWarp : Bool) (mode : MotionMode) : Plan Unit := do
  if mayWarp then Plan.symbol (motionModeSlot size) mode.ctorIdx
  else
    if mode = .warped then throw .invalidElement
    Plan.flag (overlappedSlot size) (mode = .overlapped)

def readMotionMode (size : BlockSize) (mayWarp : Bool) : Parse MotionMode := do
  if mayWarp then
    let symbol ← Parse.readSymbol (motionModeSlot size)
    Parse.ofOption MotionMode.all[symbol]?
  else
    return if ← Parse.readFlag (overlappedSlot size) then .overlapped else .simple

/-! ## Interpolation -/

def filterSlot (near : Neighbours) (direction : Nat) (refs : RefPair) : Slot :=
  Table.interpolationFilter.at (near.filterContext direction refs)

def writeFilter (near : Neighbours) (direction : Nat) (refs : RefPair)
    (filter : InterpolationFilter) : Plan Unit := do
  checkSymbol filter.ctorIdx InterpolationFilter.choices
  Plan.symbol (filterSlot near direction refs) filter.ctorIdx

def readFilter (near : Neighbours) (direction : Nat) (refs : RefPair) :
    Parse InterpolationFilter := do
  let symbol ← Parse.readSymbol (filterSlot near direction refs)
  Parse.ofOption InterpolationFilter.all[symbol]?

end TileCoder.Inter
