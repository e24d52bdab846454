import TileCoder.Bits

/-!
Motion vectors, in eighths of a sample.

The magnitude of a component, less one, is cut into a class, which is the logarithm of its whole
samples, and the offset within the class.
-/

namespace TileCoder

open scoped Plain

/-- The finest step of a motion vector. -/
inductive MotionPrecision where
  | whole | quarter | eighth
  deriving DecidableEq, Repr

/-- The precision of a number: a negative one stands for whole samples. -/
def MotionPrecision.ofInt (number : Int) : MotionPrecision :=
  if number < 0 then whole else if number = 0 then quarter else eighth

/-- A vector has quarter samples where nothing else is said. -/
instance : Inhabited MotionPrecision := ⟨.quarter⟩

/-- The size of a step. -/
def MotionPrecision.step : MotionPrecision → Int
  | whole => 8
  | quarter => 2
  | eighth => 1

/-- The two components of a motion vector. -/
inductive Axis where
  | row | column
  deriving DecidableEq, Repr, Inhabited

def Axis.ofIndex (index : Nat) : Axis := if index = 0 then row else column

structure MotionVector where
  row : Int
  column : Int
  deriving DecidableEq, Repr, Inhabited

/-- Which components of a displacement are not zero. -/
inductive MotionJoint where
  | zero | columnOnly | rowOnly | both
  deriving DecidableEq, Repr, Inhabited

namespace MotionJoint

def all : List MotionJoint := [zero, columnOnly, rowOnly, both]

def index (joint : MotionJoint) : Nat := joint.ctorIdx

def hasRow (joint : MotionJoint) : Bool := joint = rowOnly || joint = both

def hasColumn (joint : MotionJoint) : Bool := joint = columnOnly || joint = both

end MotionJoint

namespace MotionVector

/-- The largest magnitude of a component that can be coded. -/
def limit : Int := 16384

/-- Whether a vector may be used by a block. -/
def IsValid (mv : MotionVector) : Prop :=
  -limit < mv.row ∧ mv.row < limit ∧ -limit < mv.column ∧ mv.column < limit

instance (mv : MotionVector) : Decidable mv.IsValid :=
  inferInstanceAs (Decidable (_ ∧ _ ∧ _ ∧ _))

def joint (mv : MotionVector) : MotionJoint :=
  if mv.row = 0 then if mv.column = 0 then .zero else .columnOnly
  else if mv.column = 0 then .rowOnly else .both

def classes : Nat := 11

/-- The least offset magnitude of a class; the first class has the size of the second. -/
def classBase (c : Nat) : Nat := if c = 0 then 0 else 2 ^ (c + 3)

/-- The class of a magnitude less one, and its offset there; the last class takes what is
larger. -/
def classOf (magnitude : Nat) : Nat × Nat :=
  let c := if 8192 ≤ magnitude then 10 else (magnitude / 8).log2
  (c, magnitude - classBase c)

end MotionVector

end TileCoder
