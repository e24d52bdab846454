import TileCoder.Bits

/-!
Block sizes.

A block is between 4 and 128 samples wide and high. Sizes are ordered by both dimensions at once, so
that two of them may be incomparable.
-/

namespace TileCoder

open scoped Plain

/-- The size of a block, width by height. -/
inductive BlockSize where
  | b4x4 | b4x8 | b8x4 | b8x8 | b8x16 | b16x8 | b16x16 | b16x32 | b32x16 | b32x32 | b32x64
  | b64x32 | b64x64 | b64x128 | b128x64 | b128x128 | b4x16 | b16x4 | b8x32 | b32x8 | b16x64
  | b64x16
  deriving DecidableEq, Repr, Inhabited

namespace BlockSize

def all : List BlockSize :=
  [b4x4, b4x8, b8x4, b8x8, b8x16, b16x8, b16x16, b16x32, b32x16, b32x32, b32x64, b64x32, b64x64,
    b64x128, b128x64, b128x128, b4x16, b16x4, b8x32, b32x8, b16x64, b64x16]

def total : Nat := 22

def index (size : BlockSize) : Nat := size.ctorIdx

def logs : BlockSize → Nat × Nat
  | b4x4 => (2, 2) | b4x8 => (2, 3) | b8x4 => (3, 2) | b8x8 => (3, 3)
  | b8x16 => (3, 4) | b16x8 => (4, 3) | b16x16 => (4, 4)
  | b16x32 => (4, 5) | b32x16 => (5, 4) | b32x32 => (5, 5)
  | b32x64 => (5, 6) | b64x32 => (6, 5) | b64x64 => (6, 6)
  | b64x128 => (6, 7) | b128x64 => (7, 6) | b128x128 => (7, 7)
  | b4x16 => (2, 4) | b16x4 => (4, 2) | b8x32 => (3, 5) | b32x8 => (5, 3)
  | b16x64 => (4, 6) | b64x16 => (6, 4)

def widthLog (size : BlockSize) : Nat := size.logs.1

def heightLog (size : BlockSize) : Nat := size.logs.2

def width (size : BlockSize) : Nat := 2 ^ size.widthLog

def height (size : BlockSize) : Nat := 2 ^ size.heightLog

/-- Binary logarithm of the side of the unit that block positions are counted in. -/
def unitLog : Nat := 2

def unitWidthLog (size : BlockSize) : Nat := size.widthLog - unitLog

def unitHeightLog (size : BlockSize) : Nat := size.heightLog - unitLog

def unitWidth (size : BlockSize) : Nat := 2 ^ size.unitWidthLog

def unitHeight (size : BlockSize) : Nat := 2 ^ size.unitHeightLog

def IsSquare (size : BlockSize) : Prop := size.widthLog = size.heightLog

instance (size : BlockSize) : Decidable size.IsSquare := inferInstanceAs (Decidable (_ = _))

/-- Compares two sizes: none if one is wider and the other higher, else by width and then by
height. -/
def compare? (a b : BlockSize) : Option Ordering :=
  let byWidth := compare a.widthLog b.widthLog
  let byHeight := compare a.heightLog b.heightLog
  match byWidth, byHeight with
  | .gt, .lt | .lt, .gt => none
  | _, _ => some (byWidth.then byHeight)

instance : LE BlockSize := ⟨fun a b => a.widthLog ≤ b.widthLog ∧ a.heightLog ≤ b.heightLog⟩

instance : LT BlockSize := ⟨fun a b => a ≤ b ∧ a ≠ b⟩

instance (a b : BlockSize) : Decidable (a ≤ b) :=
  inferInstanceAs (Decidable (a.widthLog ≤ b.widthLog ∧ a.heightLog ≤ b.heightLog))

instance (a b : BlockSize) : Decidable (a < b) := inferInstanceAs (Decidable (a ≤ b ∧ a ≠ b))

/-- Whether chroma may be predicted from luma. -/
def AllowsChromaFromLuma (size : BlockSize) : Prop := size ≤ b32x32

instance (size : BlockSize) : Decidable size.AllowsChromaFromLuma :=
  inferInstanceAs (Decidable (_ ≤ _))

/-- Whether a transform of the block may be other than square. -/
def AllowsRectTransform (size : BlockSize) : Prop :=
  ¬size.IsSquare ∧ size.width < 128 ∧ size.height < 128

instance (size : BlockSize) : Decidable size.AllowsRectTransform :=
  inferInstanceAs (Decidable (_ ∧ _ ∧ _))

/-- The group of sizes that share a distribution of modes. -/
def group : BlockSize → Nat
  | b4x4 | b4x8 | b8x4 | b4x16 | b16x4 => 0
  | b8x8 | b8x16 | b16x8 | b8x32 | b32x8 => 1
  | b16x16 | b16x32 | b32x16 | b16x64 | b64x16 => 2
  | b32x32 | b32x64 | b64x32 | b64x64 | b64x128 | b128x64 | b128x128 => 3

/-- The context of a palette, for the sizes that may have one: those of at least 64 samples with no
side above 64. -/
def paletteContext? (size : BlockSize) : Option Nat :=
  let units := size.unitWidthLog + size.unitHeightLog
  if 2 ≤ units ∧ size.width ≤ 64 ∧ size.height ≤ 64 then some (units - 2) else none

theorem all_getElem? (size : BlockSize) : all[size.index]? = some size := by
  cases size <;> rfl

end BlockSize

end TileCoder
