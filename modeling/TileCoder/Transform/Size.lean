import TileCoder.Bits
import TileCoder.Block.Size

/-!
Transform sizes, and how a transform is split.
-/

namespace TileCoder

open scoped Plain

/-- The size of a transform, width by height. -/
inductive TransformSize where
  | t4x4 | t8x8 | t16x16 | t32x32 | t64x64 | t4x8 | t8x4 | t8x16 | t16x8 | t16x32 | t32x16
  | t32x64 | t64x32 | t4x16 | t16x4 | t8x32 | t32x8 | t16x64 | t64x16
  deriving DecidableEq, Repr, Inhabited

namespace TransformSize

def all : List TransformSize :=
  [t4x4, t8x8, t16x16, t32x32, t64x64, t4x8, t8x4, t8x16, t16x8, t16x32, t32x16, t32x64, t64x32,
    t4x16, t16x4, t8x32, t32x8, t16x64, t64x16]

/-- The number of a transform size; squares come first, by size. -/
def index (size : TransformSize) : Nat := size.ctorIdx

def squares : Nat := 5

/-- The block of the same size. -/
def block : TransformSize → BlockSize
  | t4x4 => .b4x4 | t8x8 => .b8x8 | t16x16 => .b16x16 | t32x32 => .b32x32 | t64x64 => .b64x64
  | t4x8 => .b4x8 | t8x4 => .b8x4 | t8x16 => .b8x16 | t16x8 => .b16x8
  | t16x32 => .b16x32 | t32x16 => .b32x16 | t32x64 => .b32x64 | t64x32 => .b64x32
  | t4x16 => .b4x16 | t16x4 => .b16x4 | t8x32 => .b8x32 | t32x8 => .b32x8
  | t16x64 => .b16x64 | t64x16 => .b64x16

def widthLog (size : TransformSize) : Nat := size.block.widthLog

def heightLog (size : TransformSize) : Nat := size.block.heightLog

def width (size : TransformSize) : Nat := size.block.width

def height (size : TransformSize) : Nat := size.block.height

/-- The number of coefficients. -/
def area (size : TransformSize) : Nat := 2 ^ (size.widthLog + size.heightLog)

def IsRect (size : TransformSize) : Prop := ¬size.block.IsSquare

instance (size : TransformSize) : Decidable size.IsRect := inferInstanceAs (Decidable (¬_))

/-- The square transform whose side has this logarithm. -/
def ofSideLog : Nat → TransformSize
  | 0 | 1 | 2 => t4x4
  | 3 => t8x8
  | 4 => t16x16
  | 5 => t32x32
  | _ => t64x64

/-- The largest square inside. -/
def square (size : TransformSize) : TransformSize := ofSideLog (min size.widthLog size.heightLog)

/-- The smallest square around. -/
def squareUp (size : TransformSize) : TransformSize := ofSideLog (max size.widthLog size.heightLog)

/-- The size of the pieces when a transform is split: the longer side is halved, and a square in
both directions. -/
def split : TransformSize → TransformSize
  | t4x4 | t8x8 | t4x8 | t8x4 => t4x4
  | t16x16 | t8x16 | t16x8 => t8x8
  | t32x32 | t16x32 | t32x16 => t16x16
  | t64x64 | t32x64 | t64x32 => t32x32
  | t4x16 => t4x8
  | t16x4 => t8x4
  | t8x32 => t8x16
  | t32x8 => t16x8
  | t16x64 => t16x32
  | t64x16 => t32x16

/-- The number of times a transform can be split before it is 4 by 4. -/
def splitDepth : TransformSize → Nat
  | t4x4 => 0
  | t8x8 | t4x8 | t8x4 => 1
  | t16x16 | t8x16 | t16x8 | t4x16 | t16x4 => 2
  | t32x32 | t16x32 | t32x16 | t8x32 | t32x8 => 3
  | t64x64 | t32x64 | t64x32 | t16x64 | t64x16 => 4

/-- The largest transform of a block. -/
def ofBlock : BlockSize → TransformSize
  | .b4x4 => t4x4 | .b4x8 => t4x8 | .b8x4 => t8x4 | .b8x8 => t8x8
  | .b8x16 => t8x16 | .b16x8 => t16x8 | .b16x16 => t16x16
  | .b16x32 => t16x32 | .b32x16 => t32x16 | .b32x32 => t32x32
  | .b32x64 => t32x64 | .b64x32 => t64x32
  | .b64x64 | .b64x128 | .b128x64 | .b128x128 => t64x64
  | .b4x16 => t4x16 | .b16x4 => t16x4 | .b8x32 => t8x32 | .b32x8 => t32x8
  | .b16x64 => t16x64 | .b64x16 => t64x16

/-- The most splits below the largest transform that an intra block may have. -/
def maxDepth : Nat := 2

/-- The most splits that an inter block may code. -/
def maxSplits : Nat := 2

/-- The transform of a block after some splits. -/
def atDepth (block : BlockSize) : (depth : Nat) → TransformSize
  | 0 => ofBlock block
  | depth + 1 => (atDepth block depth).split

/-- The number of splits that an intra block may have. -/
def depthLimit (block : BlockSize) : Nat := min maxDepth (ofBlock block).splitDepth

/-- The number of splits that make this transform of a block. -/
def depthOf? (block : BlockSize) (size : TransformSize) : Option Nat :=
  (List.range (depthLimit block + 1)).find? fun depth => atDepth block depth = size

/-- The category of a block by how often its transform can be split. -/
def category (block : BlockSize) : Nat := (ofBlock block).splitDepth - 1

/-- Whether a block has transforms to choose from and this one fits it. -/
def Fits (block : BlockSize) (size : TransformSize) : Prop :=
  block ≠ .b4x4 ∧ size.block ≤ (ofBlock block).block

instance (block : BlockSize) (size : TransformSize) : Decidable (Fits block size) :=
  inferInstanceAs (Decidable (_ ∧ _))

end TransformSize

end TileCoder
