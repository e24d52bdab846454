import TileCoder.Block.Mode
import TileCoder.Block.Reference
import TileCoder.Transform.Size

/-!
What a block learns from its neighbours above and to the left.

Most elements are coded with a row that depends on the same element of the two neighbours. A
neighbour outside of the tile is absent.
-/

namespace TileCoder

open scoped Plain

/-- What is kept of a block for the blocks below it and to its right. -/
structure Neighbour where
  mode : PredictionMode
  size : BlockSize
  skip : Bool
  skipMode : Bool
  refs : RefPair
  /-- The number of colours of the luma palette; without a palette none. -/
  lumaColors : Nat
  /-- The interpolation filter in each direction. -/
  filters : InterpolationFilter × InterpolationFilter
  /-- The choice of a mask for two predictions. -/
  compoundGroup : Nat
  /-- The choice of weights for two predictions. -/
  compoundIndex : Nat
  deriving DecidableEq, Repr

namespace Neighbour

/-- A block of 64 by 64 samples in flat intra prediction. -/
def plain : Neighbour :=
  { mode := .dc
    size := .b64x64
    skip := false
    skipMode := false
    refs := ⟨.intra, .none⟩
    lumaColors := 0
    filters := (.regular, .regular)
    compoundGroup := 0
    compoundIndex := 0 }

/-- Whether the block is predicted from another frame. -/
def isInter (block : Neighbour) : Bool := block.refs.first.isInter

/-- Whether the block is predicted from two other frames. -/
def isCompoundInter (block : Neighbour) : Bool :=
  block.refs.first ≠ .intra && block.refs.isCompound

/-- Whether those two frames are of the same side. -/
def isOneSided (block : Neighbour) : Bool :=
  block.isCompoundInter && block.refs.first.isLater == block.refs.second.isLater

end Neighbour

structure Neighbours where
  above : Option Neighbour
  left : Option Neighbour
  deriving DecidableEq, Repr

namespace Neighbours

/-- The neighbours that exist. -/
def present (near : Neighbours) : List Neighbour := near.above.toList ++ near.left.toList

def countP (near : Neighbours) (property : Neighbour → Bool) : Nat := near.present.countP property

def skipContext (near : Neighbours) : Nat := near.countP (·.skip)

def skipModeContext (near : Neighbours) : Nat := near.countP (·.skipMode)

def paletteContext (near : Neighbours) : Nat := near.countP (0 < ·.lumaColors)

/-- 0 between inter blocks, 1 beside an intra and an inter block, 2 beside an intra block alone, and
3 between intra blocks. -/
def interContext (near : Neighbours) : Nat :=
  match near.above, near.left with
  | some above, some left =>
      match above.isInter, left.isInter with
      | true, true => 0
      | false, false => 3
      | _, _ => 1
  | some only, none | none, some only => if only.isInter then 0 else 2
  | none, none => 0

/-- The class of an intra mode as a context for other modes. -/
def modeClass : PredictionMode → Nat
  | .vertical | .smoothVertical => 1
  | .horizontal | .smoothHorizontal => 2
  | .d45 | .d67 => 3
  | .d135 | .d113 | .d157 | .d203 => 4
  | _ => 0

/-- The classes of the modes above and to the left. -/
def modeContext (near : Neighbours) : Nat × Nat :=
  let classOf (block : Option Neighbour) := (block.map fun b => modeClass b.mode).getD 0
  (classOf near.above, classOf near.left)

/-- How many of the neighbours' references are among the given ones. -/
def refCount (near : Neighbours) (refs : List Reference) : Nat :=
  (near.present.flatMap fun b => [b.refs.first, b.refs.second]).countP (refs.contains ·)

/-- 0, 1 or 2 as the first count is below, equal to or above the second. -/
def balance (first second : Nat) : Nat :=
  if first < second then 0 else if first = second then 1 else 2

/-- Which of two groups of references the neighbours use more. -/
def refContext (near : Neighbours) (first second : List Reference) : Nat :=
  balance (near.refCount first) (near.refCount second)

/-- Earlier against later frames. -/
def earlierOrLater (near : Neighbours) : Nat :=
  near.refContext [.last, .last2, .last3, .golden] [.backward, .alternate2, .alternate]

/-- The nearer two later frames against the farthest. -/
def nearOrFarLater (near : Neighbours) : Nat :=
  near.refContext [.backward, .alternate2] [.alternate]

/-- The nearest two earlier frames against the others. -/
def nearOrFarEarlier (near : Neighbours) : Nat :=
  near.refContext [.last, .last2] [.last3, .golden]

def lastOrLast2 (near : Neighbours) : Nat := near.refContext [.last] [.last2]

def last3OrGolden (near : Neighbours) : Nat := near.refContext [.last3] [.golden]

def backwardOrAlternate2 (near : Neighbours) : Nat := near.refContext [.backward] [.alternate2]

def last2OrFarEarlier (near : Neighbours) : Nat := near.refContext [.last2] [.last3, .golden]

/-- The context of whether there are two references: 0 or 1 beside blocks with one, 2 or 3 beside
one block with two, and 4 between such blocks. -/
def compoundContext (near : Neighbours) : Nat :=
  let later (b : Neighbour) := b.refs.first.isLater
  let laterOrIntra (b : Neighbour) := later b || b.refs.first = .intra
  match near.above, near.left with
  | some above, some left =>
      match above.refs.isCompound, left.refs.isCompound with
      | false, false => (later above ^^ later left).toNat
      | false, true => 2 + (laterOrIntra above).toNat
      | true, false => 2 + (laterOrIntra left).toNat
      | true, true => 4
  | some only, none | none, some only =>
      if only.refs.isCompound then 3 else (later only).toNat
  | none, none => 1

/-- The context of whether two references are of different sides, from 0 where the neighbours'
are to 4 where they are not. -/
def directionContext (near : Neighbours) : Nat :=
  match near.above, near.left with
  | some above, some left =>
      if above.refs.first ≠ .intra ∧ left.refs.first ≠ .intra then
        let same := (above.refs.first.isLater == left.refs.first.isLater).toNat
        match above.isCompoundInter, left.isCompoundInter with
        | false, false => 1 + 2 * same
        | false, true => if left.isOneSided then 3 + same else 1
        | true, false => if above.isOneSided then 3 + same else 1
        | true, true =>
            match above.isOneSided, left.isOneSided with
            | false, false => 0
            | true, true =>
                3 + ((above.refs.first == .backward) == (left.refs.first == .backward)).toNat
            | _, _ => 2
      else if above.isCompoundInter then 1 + 2 * above.isOneSided.toNat
      else if left.isCompoundInter then 1 + 2 * left.isOneSided.toNat
      else 2
  | some only, none | none, some only =>
      if only.isCompoundInter then 4 * only.isOneSided.toNat else 2
  | none, none => 2

/-- How often the neighbours use a frame. -/
def tally (near : Neighbours) (ref : Reference) : Nat :=
  if ref.isInter then near.refCount [ref] else 0

/-- The interpolation filter of a neighbour that shares a reference with the block; the number of
choices if there is none. -/
def sharedFilter (block : Option Neighbour) (direction : Nat) (refs : RefPair) : Nat :=
  match block with
  | none => InterpolationFilter.choices
  | some b =>
      if b.refs.first = refs.first ∨ b.refs.second = refs.first then
        (if direction = 0 then b.filters.1 else b.filters.2).ctorIdx
      else InterpolationFilter.choices

/-- The filter that the neighbours agree on, within the group of the direction and of the number of
references. -/
def filterContext (near : Neighbours) (direction : Nat) (refs : RefPair) : Nat :=
  let above := sharedFilter near.above direction refs
  let left := sharedFilter near.left direction refs
  let agreed :=
    if left = above then left
    else if left = InterpolationFilter.choices then above
    else if above = InterpolationFilter.choices then left
    else InterpolationFilter.choices
  (direction % 2 * 2 + refs.isCompound.toNat) * 4 + agreed

/-- What the masks of the neighbours add up to. -/
def groupContext (near : Neighbours) : Nat :=
  let part (b : Neighbour) :=
    if b.refs.isCompound then b.compoundGroup else if b.refs.first = .alternate then 3 else 0
  min (near.present.map part).sum 5

/-- What the weights of the neighbours add up to, in the group of equal or unequal distances. -/
def weightContext (near : Neighbours) (equalDistance : Bool) : Nat :=
  let part (b : Neighbour) :=
    if b.refs.isCompound then b.compoundIndex else (b.refs.first == .alternate).toNat
  (if equalDistance then 3 else 0) + (near.present.map part).sum

/-- How many neighbours have transforms at least as large as the block's largest, given the sizes of
the transforms that touch it. -/
def transformContext (near : Neighbours) (size : BlockSize) (aboveWidth leftHeight : Nat) : Nat :=
  let largest := TransformSize.ofBlock size
  let above := near.above.any fun b =>
    largest.width ≤ if b.isInter then b.size.width else aboveWidth
  let left := near.left.any fun b =>
    largest.height ≤ if b.isInter then b.size.height else leftHeight
  above.toNat + left.toNat

/-- The sizes of the neighbouring transforms as a split sees them: a neighbour without residue
counts as a whole, and the edge of the tile as 64 samples. -/
def splitNeighbours (near : Neighbours) (firstRow firstColumn : Bool)
    (aboveWidth leftHeight : Nat) : Nat × Nat :=
  let seen (block : Option Neighbour) (first : Bool) (side : BlockSize → Nat) (size : Nat) :=
    if !first then size
    else
      match block with
      | none => 64
      | some b => if b.skip && b.isInter then side b.size else size
  (seen near.above firstRow BlockSize.width aboveWidth,
    seen near.left firstColumn BlockSize.height leftHeight)

end Neighbours

end TileCoder
