import TileCoder.Block.Size

/-!
Prediction modes and the other choices a block makes on how it is predicted.

The modes up to `paeth` are intra modes of luma and chroma, `chromaFromLuma` is an intra mode of
chroma alone, the next four are inter modes with one reference, and the rest are inter modes with
two.
-/

namespace TileCoder

/-- How a block is predicted. -/
inductive PredictionMode where
  | dc | vertical | horizontal | d45 | d135 | d113 | d157 | d203 | d67 | smooth | smoothVertical
  | smoothHorizontal | paeth | chromaFromLuma | nearestMv | nearMv | globalMv | newMv
  | nearestNearestMv | nearNearMv | nearestNewMv | newNearestMv | nearNewMv | newNearMv
  | globalGlobalMv | newNewMv
  deriving DecidableEq, Repr, Inhabited

namespace PredictionMode

def all : List PredictionMode :=
  [dc, vertical, horizontal, d45, d135, d113, d157, d203, d67, smooth, smoothVertical,
    smoothHorizontal, paeth, chromaFromLuma, nearestMv, nearMv, globalMv, newMv, nearestNearestMv,
    nearNearMv, nearestNewMv, newNearestMv, nearNewMv, newNearMv, globalGlobalMv, newNewMv]

def index (mode : PredictionMode) : Nat := mode.ctorIdx

def ofIndex? (index : Nat) : Option PredictionMode := all[index]?

def intraModes : Nat := 13

def IsIntra (mode : PredictionMode) : Prop := mode.index ≤ chromaFromLuma.index

instance (mode : PredictionMode) : Decidable mode.IsIntra := inferInstanceAs (Decidable (_ ≤ _))

/-- Whether the mode takes two references. -/
def IsCompound (mode : PredictionMode) : Prop := nearestNearestMv.index ≤ mode.index

instance (mode : PredictionMode) : Decidable mode.IsCompound :=
  inferInstanceAs (Decidable (_ ≤ _))

/-- Whether the mode predicts along an angle. -/
def IsDirectional (mode : PredictionMode) : Prop :=
  vertical.index ≤ mode.index ∧ mode.index ≤ d67.index

instance (mode : PredictionMode) : Decidable mode.IsDirectional :=
  inferInstanceAs (Decidable (_ ∧ _))

/-- Whether a motion vector is coded for the block. -/
def hasNewMv : PredictionMode → Bool
  | newMv | newNewMv | nearestNewMv | newNearestMv | nearNewMv | newNearMv => true
  | _ => false

/-- Whether a motion vector is taken from further down the list of candidates. -/
def hasNearMv : PredictionMode → Bool
  | nearMv | nearNearMv | nearNewMv | newNearMv => true
  | _ => false

/-- Whether an angle may be refined in a block of this size. -/
def AllowsAngleDelta (mode : PredictionMode) (size : BlockSize) : Prop :=
  .b8x8 ≤ size ∧ mode.IsDirectional

instance (mode : PredictionMode) (size : BlockSize) : Decidable (mode.AllowsAngleDelta size) :=
  inferInstanceAs (Decidable (_ ∧ _))

/-- The luma mode that does what an intra mode of chroma does. -/
def toLuma? (mode : PredictionMode) : Option PredictionMode :=
  if mode = chromaFromLuma then some dc
  else if mode.IsIntra then some mode
  else none

theorem ofIndex?_index (mode : PredictionMode) : ofIndex? mode.index = some mode := by
  cases mode <;> rfl

end PredictionMode

/-- Intra prediction by recursive filters. -/
inductive FilterIntraMode where
  | dc | vertical | horizontal | d157 | paeth
  deriving DecidableEq, Repr, Inhabited

namespace FilterIntraMode

def all : List FilterIntraMode := [dc, vertical, horizontal, d157, paeth]

/-- The plain intra mode with the same direction. -/
def direction : FilterIntraMode → PredictionMode
  | dc => .dc
  | vertical => .vertical
  | horizontal => .horizontal
  | d157 => .d157
  | paeth => .dc

end FilterIntraMode

/-- Interpolation filters; the last says that each block chooses one of the first three. -/
inductive InterpolationFilter where
  | regular | smooth | sharp | bilinear | switchable
  deriving DecidableEq, Repr, Inhabited

namespace InterpolationFilter

def all : List InterpolationFilter := [regular, smooth, sharp, bilinear, switchable]

/-- The number of filters that a block may choose from. -/
def choices : Nat := 3

end InterpolationFilter

/-- How the motion of a block varies within it. -/
inductive MotionMode where
  | simple | overlapped | warped
  deriving DecidableEq, Repr, Inhabited

def MotionMode.all : List MotionMode := [simple, overlapped, warped]

/-- The intra part of a block that is predicted both ways. -/
inductive InterIntraMode where
  | dc | vertical | horizontal | smooth
  deriving DecidableEq, Repr, Inhabited

def InterIntraMode.all : List InterIntraMode := [dc, vertical, horizontal, smooth]

/-- How two predictions are masked together. -/
inductive CompoundType where
  | wedge | difference
  deriving DecidableEq, Repr, Inhabited

def CompoundType.all : List CompoundType := [wedge, difference]

end TileCoder
