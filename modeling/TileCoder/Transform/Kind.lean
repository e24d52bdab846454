import TileCoder.Block.Mode
import TileCoder.Transform.Size

/-!
Transform kinds: a one-dimensional transform for each direction.

Which kinds a block may use depends on the size of the transform and on the prediction. A
`TransformSet` is such a choice, and it numbers its kinds by `TransformSet.kinds`.
-/

namespace TileCoder

/-- The pair of transforms of columns and rows. -/
inductive TransformKind where
  | dctDct | adstDct | dctAdst | adstAdst | flipAdstDct | dctFlipAdst | flipAdstFlipAdst
  | adstFlipAdst | flipAdstAdst | identity | verticalDct | horizontalDct | verticalAdst
  | horizontalAdst | verticalFlipAdst | horizontalFlipAdst
  deriving DecidableEq, Repr, Inhabited

namespace TransformKind

def all : List TransformKind :=
  [dctDct, adstDct, dctAdst, adstAdst, flipAdstDct, dctFlipAdst, flipAdstFlipAdst, adstFlipAdst,
    flipAdstAdst, identity, verticalDct, horizontalDct, verticalAdst, horizontalAdst,
    verticalFlipAdst, horizontalFlipAdst]

def index (kind : TransformKind) : Nat := kind.ctorIdx

end TransformKind

/-- The kinds that a block may choose from. -/
inductive TransformSet where
  | dctOnly | inter3 | intra2 | intra1 | inter2 | inter1
  deriving DecidableEq, Repr, Inhabited

namespace TransformSet

open TransformKind

def all : List TransformSet := [dctOnly, inter3, intra2, intra1, inter2, inter1]

/-- The kinds of a set, in the order of their symbols. -/
def kinds : TransformSet → List TransformKind
  | dctOnly => [dctDct]
  | inter3 => [identity, dctDct]
  | intra2 => [identity, dctDct, adstAdst, adstDct, dctAdst]
  | intra1 => [identity, dctDct, verticalDct, horizontalDct, adstAdst, adstDct, dctAdst]
  | inter2 =>
      [identity, verticalDct, horizontalDct, dctDct, adstDct, dctAdst, flipAdstDct, dctFlipAdst,
        adstAdst, flipAdstFlipAdst, adstFlipAdst, flipAdstAdst]
  | inter1 =>
      [identity, verticalDct, horizontalDct, verticalAdst, horizontalAdst, verticalFlipAdst,
        horizontalFlipAdst, dctDct, adstDct, dctAdst, flipAdstDct, dctFlipAdst, adstAdst,
        flipAdstFlipAdst, adstFlipAdst, flipAdstAdst]

/-- The symbol of a kind; kinds outside of the set have 0. -/
def symbol (set : TransformSet) (kind : TransformKind) : Nat :=
  if kind ∈ set.kinds then set.kinds.idxOf kind else 0

def kind? (set : TransformSet) (symbol : Nat) : Option TransformKind := set.kinds[symbol]?

/-- The set that a transform of this size chooses from. -/
def ofSize (size : TransformSize) (inter reduced : Bool) : TransformSet :=
  let outer := size.squareUp
  if outer = .t64x64 then dctOnly
  else if inter then
    if reduced ∨ outer = .t32x32 then inter3
    else if size.square = .t16x16 then inter2
    else inter1
  else if outer = .t32x32 then dctOnly
  else if reduced ∨ size.square = .t16x16 then intra2
  else intra1

/-- The number of a set among those for the same prediction; none for a set of the other. -/
def index? (set : TransformSet) (inter : Bool) : Option Nat :=
  match inter, set with
  | _, dctOnly => some 0
  | true, inter1 => some 1
  | true, inter2 => some 2
  | true, inter3 => some 3
  | false, intra1 => some 1
  | false, intra2 => some 2
  | _, _ => none

theorem kind?_symbol {set : TransformSet} {kind : TransformKind} (member : kind ∈ set.kinds) :
    set.kind? (set.symbol kind) = some kind := by
  cases set <;> cases kind <;> first | rfl | (revert member; decide)

end TransformSet

/-- The direction that the kind of an intra transform is coded by. -/
def transformDirection (mode : PredictionMode) : Option FilterIntraMode → PredictionMode
  | some filter => filter.direction
  | none => mode

end TileCoder
