/-!
The frames that a block may be predicted from.
-/

namespace TileCoder

/-- The source of a prediction: the frame itself, one of seven earlier frames, or nothing. -/
inductive Reference where
  | intra | last | last2 | last3 | golden | backward | alternate2 | alternate | none
  deriving DecidableEq, Repr, Inhabited

namespace Reference

def all : List Reference :=
  [intra, last, last2, last3, golden, backward, alternate2, alternate, none]

def index (ref : Reference) : Nat := ref.ctorIdx

/-- Whether this is another frame. -/
def isInter : Reference → Bool
  | intra | none => false
  | _ => true

/-- The number of earlier frames. -/
def interCount : Nat := 7

/-- The number of the frame among the earlier ones. -/
def interIndex? (ref : Reference) : Option Nat :=
  if ref.isInter then some (ref.index - 1) else .none

/-- Whether the number is that of a frame shown before, or of the frame itself. -/
def isForward (ref : Reference) : Bool := ref.index ≤ golden.index

/-- Whether the number is that of a frame shown later, or that of nothing. -/
def isBackward (ref : Reference) : Bool := backward.index ≤ ref.index

/-- Whether this is a frame shown later. -/
def isLater (ref : Reference) : Bool := ref.isBackward && ref.isInter

theorem isBackward_eq_not_isForward (ref : Reference) : ref.isBackward = !ref.isForward := by
  cases ref <;> rfl

end Reference

/-- The references of a block; the second is `none` in a block with one. -/
structure RefPair where
  first : Reference
  second : Reference
  deriving DecidableEq, Repr, Inhabited

namespace RefPair

/-- Whether there is a second reference. -/
def isCompound (refs : RefPair) : Bool := refs.second.isInter

/-- One reference from before and one from later. -/
def isBidirectional (refs : RefPair) : Bool := refs.first.isForward && refs.second.isBackward

/-- Two references from the same side; only four such pairs are in use. -/
def isUnidirectional : RefPair → Bool
  | ⟨.last, .last2⟩ | ⟨.last, .last3⟩ | ⟨.last, .golden⟩ | ⟨.backward, .alternate⟩ => true
  | _ => false

end RefPair

end TileCoder
