import TileCoder.Block.Motion
import TileCoder.Element.Program

/-!
Motion vectors, as differences from a predicted vector.

A component is coded by its sign and the class of its magnitude, then the whole samples within the
class, and quarters and eighths of a sample as far as the precision goes; what the precision leaves
out counts as its largest value, so that a magnitude is rounded up.
-/

namespace TileCoder.MotionVector

structure ComponentTables where
  cls : Table
  sign : Table
  whole0 : Table
  whole : Table
  quarter0 : Table
  quarter : Table
  eighth0 : Table
  eighth : Table

def ComponentTables.of : Axis → ComponentTables
  | .row =>
      ⟨.rowClass, .rowSign, .rowWhole0, .rowWhole, .rowQuarter0, .rowQuarter, .rowEighth0,
        .rowEighth⟩
  | .column =>
      ⟨.columnClass, .columnSign, .columnWhole0, .columnWhole, .columnQuarter0, .columnQuarter,
        .columnEighth0, .columnEighth⟩

def codesQuarters (precision : MotionPrecision) : Bool := precision ≠ .whole

def codesEighths (precision : MotionPrecision) : Bool := precision = .eighth

/-- The row of quarters, by class and whole samples. -/
def quarterSlot (tables : ComponentTables) (cls whole : Nat) : Slot :=
  if cls = 0 then tables.quarter0.at whole else tables.quarter.only

def eighthSlot (tables : ComponentTables) (cls : Nat) : Slot :=
  (if cls = 0 then tables.eighth0 else tables.eighth).only

/-- Writes the digits of the whole samples, the lowest first. -/
def writeWholeDigits (table : Table) (whole : Nat) : (digits i : Nat) → Plan Unit
  | 0, _ => pure ()
  | digits + 1, i => do
      Plan.flag (table.at i) (whole.testBit i)
      writeWholeDigits table whole digits (i + 1)

def readWholeDigits (table : Table) : (digits i : Nat) → Parse Nat
  | 0, _ => return 0
  | digits + 1, i => do
      let digit ← Parse.readSymbol (table.at i)
      let rest ← readWholeDigits table digits (i + 1)
      return digit + 2 * rest

def writeWhole (tables : ComponentTables) (cls whole : Nat) : Plan Unit :=
  if cls = 0 then Plan.symbol tables.whole0.only whole
  else writeWholeDigits tables.whole whole cls 0

def readWhole (tables : ComponentTables) (cls : Nat) : Parse Nat :=
  if cls = 0 then Parse.readSymbol tables.whole0.only else readWholeDigits tables.whole cls 0

/-- Writes a component that is not zero. -/
def writeComponent (axis : Axis) (precision : MotionPrecision) (value : Int) : Plan Unit := do
  let tables := ComponentTables.of axis
  let (cls, offset) := classOf (value.natAbs - 1)
  let whole := offset / 8
  Plan.flag tables.sign.only (value < 0)
  Plan.symbol tables.cls.only cls
  writeWhole tables cls whole
  if codesQuarters precision then Plan.symbol (quarterSlot tables cls whole) (offset / 2 % 4)
  if codesEighths precision then Plan.symbol (eighthSlot tables cls) (offset % 2)

/-- Whether a component can be coded on its own. -/
def IsComponent (value : Int) : Prop := value ≠ 0 ∧ -limit ≤ value ∧ value ≤ limit

instance (value : Int) : Decidable (IsComponent value) := inferInstanceAs (Decidable (_ ∧ _ ∧ _))

/-- How to write a component, if it can be coded on its own. -/
def component? (axis : Axis) (precision : MotionPrecision) (value : Int) : Option (Plan Unit) :=
  if IsComponent value then some (writeComponent axis precision value) else none

def readComponent (axis : Axis) (precision : MotionPrecision) : Parse Int := do
  let tables := ComponentTables.of axis
  let negative ← Parse.readFlag tables.sign.only
  let cls ← Parse.readSymbol tables.cls.only
  let whole ← readWhole tables cls
  let quarter ←
    if codesQuarters precision then Parse.readSymbol (quarterSlot tables cls whole) else pure 3
  let eighth ← if codesEighths precision then Parse.readSymbol (eighthSlot tables cls) else pure 1
  let magnitude : Int := (classBase cls + (8 * whole + 2 * quarter + eighth) + 1 : Nat)
  let value := if negative then -magnitude else magnitude
  if -limit ≤ value ∧ value ≤ limit then return value else Parse.fail .corruptElement

/-- The difference of a vector from its prediction. -/
def minus (mv predicted : MotionVector) : MotionVector :=
  ⟨mv.row - predicted.row, mv.column - predicted.column⟩

/-- Whether a component of a difference can be coded at this precision. -/
def IsCodable (precision : MotionPrecision) (value : Int) : Prop :=
  -limit ≤ value ∧ value ≤ limit ∧ value % precision.step = 0

instance (precision : MotionPrecision) (value : Int) : Decidable (IsCodable precision value) :=
  inferInstanceAs (Decidable (_ ∧ _ ∧ _))

def write (predicted : MotionVector) (precision : MotionPrecision) (mv : MotionVector) :
    Plan Unit := do
  let difference := mv.minus predicted
  if ¬mv.IsValid ∨ ¬IsCodable precision difference.row ∨ ¬IsCodable precision difference.column then
    throw .invalidElement
  let joint := difference.joint
  Plan.symbol Table.motionJoint.only joint.index
  if joint.hasRow then writeComponent .row precision difference.row
  if joint.hasColumn then writeComponent .column precision difference.column

def read (predicted : MotionVector) (precision : MotionPrecision) : Parse MotionVector := do
  let symbol ← Parse.readSymbol Table.motionJoint.only
  let joint ← Parse.ofOption MotionJoint.all[symbol]?
  let row ← if joint.hasRow then readComponent .row precision else pure 0
  let column ← if joint.hasColumn then readComponent .column precision else pure 0
  let mv : MotionVector := ⟨predicted.row + row, predicted.column + column⟩
  if mv.IsValid then return mv else Parse.fail .corruptElement

end TileCoder.MotionVector
