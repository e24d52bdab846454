import TileCoder.Element.Neighbour
import TileCoder.Element.Program

/-!
The references of an inter block.

References are found in a binary tree: one or two; of two, from different sides or from one; and
then down to the frames, each choice with a context of its own from the references of the
neighbours.
-/

namespace TileCoder.RefPair

/-- What the choice of references depends on. -/
structure Site where
  near : Neighbours
  size : BlockSize
  /-- Whether the frame lets blocks have two references. -/
  allowsCompound : Bool
  deriving DecidableEq, Repr

namespace Site

/-- Whether the block may have two references: it is at least 8 samples wide and high. -/
def mayBeCompound (site : Site) : Bool :=
  site.allowsCompound && 2 ≤ min site.size.unitWidth site.size.unitHeight

def compoundSlot (site : Site) : Slot := Table.isCompound.at site.near.compoundContext

def directionSlot (site : Site) : Slot := Table.isBidirectional.at site.near.directionContext

/-- The `choice`-th choice of a single reference. -/
def singleSlot (context choice : Nat) : Slot := Table.singleReference.at (6 * context + choice)

/-- The `choice`-th choice of a pair from one side. -/
def sameSideSlot (context choice : Nat) : Slot := Table.sameSideReference.at (3 * context + choice)

/-- The `choice`-th choice of the first reference of a pair. -/
def forwardSlot (context choice : Nat) : Slot := Table.forwardReference.at (3 * context + choice)

/-- The `choice`-th choice of the second reference of a pair. -/
def backwardSlot (context choice : Nat) : Slot := Table.backwardReference.at (2 * context + choice)

end Site

/-- Writes a later frame, given the rows of the choices against `alternate` and `alternate2`. -/
def writeLater (farthest middle : Slot) (ref : Reference) : Plan Unit := do
  Plan.flag farthest (ref = .alternate)
  if ref ≠ .alternate then Plan.flag middle (ref = .alternate2)

def readLater (farthest middle : Slot) : Parse Reference := do
  if ← Parse.readFlag farthest then return .alternate
  if ← Parse.readFlag middle then return .alternate2
  return .backward

/-- Writes an earlier frame, given the rows of the choices between near and far frames, between the
near ones and between the far ones. -/
def writeEarlier (far lastOrLast2 last3OrGolden : Slot) (ref : Reference) : Plan Unit := do
  let isFar : Bool := ref = .last3 ∨ ref = .golden
  Plan.flag far isFar
  if isFar then Plan.flag last3OrGolden (ref = .golden)
  else Plan.flag lastOrLast2 (ref = .last2)

def readEarlier (far lastOrLast2 last3OrGolden : Slot) : Parse Reference := do
  if ← Parse.readFlag far then
    return if ← Parse.readFlag last3OrGolden then .golden else .last3
  else
    return if ← Parse.readFlag lastOrLast2 then .last2 else .last

def writeSingle (near : Neighbours) (ref : Reference) : Plan Unit := do
  Plan.flag (Site.singleSlot near.earlierOrLater 0) ref.isBackward
  if ref.isBackward then
    writeLater (Site.singleSlot near.nearOrFarLater 1)
      (Site.singleSlot near.backwardOrAlternate2 5) ref
  else
    writeEarlier (Site.singleSlot near.nearOrFarEarlier 2) (Site.singleSlot near.lastOrLast2 3)
      (Site.singleSlot near.last3OrGolden 4) ref

def readSingle (near : Neighbours) : Parse Reference := do
  if ← Parse.readFlag (Site.singleSlot near.earlierOrLater 0) then
    readLater (Site.singleSlot near.nearOrFarLater 1)
      (Site.singleSlot near.backwardOrAlternate2 5)
  else
    readEarlier (Site.singleSlot near.nearOrFarEarlier 2) (Site.singleSlot near.lastOrLast2 3)
      (Site.singleSlot near.last3OrGolden 4)

/-- Writes a pair with one reference from each side. -/
def writeBothSides (near : Neighbours) (refs : RefPair) : Plan Unit := do
  writeEarlier (Site.forwardSlot near.nearOrFarEarlier 0) (Site.forwardSlot near.lastOrLast2 1)
    (Site.forwardSlot near.last3OrGolden 2) refs.first
  writeLater (Site.backwardSlot near.nearOrFarLater 0)
    (Site.backwardSlot near.backwardOrAlternate2 1) refs.second

def readBothSides (near : Neighbours) : Parse RefPair := do
  let first ←
    readEarlier (Site.forwardSlot near.nearOrFarEarlier 0) (Site.forwardSlot near.lastOrLast2 1)
      (Site.forwardSlot near.last3OrGolden 2)
  let second ←
    readLater (Site.backwardSlot near.nearOrFarLater 0)
      (Site.backwardSlot near.backwardOrAlternate2 1)
  return ⟨first, second⟩

/-- Writes one of the four pairs from one side. -/
def writeOneSide (near : Neighbours) (refs : RefPair) : Plan Unit := do
  Plan.flag (Site.sameSideSlot near.earlierOrLater 0) (refs.first = .backward)
  if refs.first ≠ .backward then
    Plan.flag (Site.sameSideSlot near.last2OrFarEarlier 1) (refs.second ≠ .last2)
    if refs.second ≠ .last2 then
      Plan.flag (Site.sameSideSlot near.last3OrGolden 2) (refs.second = .golden)

def readOneSide (near : Neighbours) : Parse RefPair := do
  if ← Parse.readFlag (Site.sameSideSlot near.earlierOrLater 0) then
    return ⟨.backward, .alternate⟩
  if ← Parse.readFlag (Site.sameSideSlot near.last2OrFarEarlier 1) then
    let golden ← Parse.readFlag (Site.sameSideSlot near.last3OrGolden 2)
    return ⟨.last, if golden then .golden else .last3⟩
  return ⟨.last, .last2⟩

/-- Whether a pair can be coded: one inter reference, or two that the frame and the size of the
block allow and that are from different sides or one of the four pairs from one. -/
def IsCodable (site : Site) (refs : RefPair) : Prop :=
  refs.first.isInter = true ∧
    (refs.isCompound = true →
      site.mayBeCompound = true ∧ (refs.isBidirectional = true ∨ refs.isUnidirectional = true))

instance (site : Site) (refs : RefPair) : Decidable (IsCodable site refs) :=
  inferInstanceAs (Decidable (_ ∧ (_ → _)))

def write (site : Site) (refs : RefPair) : Plan Unit := do
  if ¬IsCodable site refs then throw .invalidElement
  if site.mayBeCompound then Plan.flag site.compoundSlot refs.isCompound
  if refs.isCompound then
    Plan.flag site.directionSlot refs.isBidirectional
    if refs.isBidirectional then writeBothSides site.near refs else writeOneSide site.near refs
  else writeSingle site.near refs.first

def read (site : Site) : Parse RefPair := do
  let isCompound ← if site.mayBeCompound then Parse.readFlag site.compoundSlot else pure false
  if isCompound then
    if ← Parse.readFlag site.directionSlot then readBothSides site.near
    else readOneSide site.near
  else
    let ref ← readSingle site.near
    return ⟨ref, .none⟩

end TileCoder.RefPair
