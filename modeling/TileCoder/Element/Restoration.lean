import TileCoder.Code.Cost
import TileCoder.Element.Program

/-!
Restoration filters and directional filters of a unit.

Each number of a filter is coded from the last one in the same place, and from then on stands in its
place.
-/

namespace TileCoder

open scoped Plain

namespace RestorationMemory

/-- A number that a filter consists of. -/
inductive Field where
  | outer (horizontal : Bool)
  | middle (horizontal : Bool)
  | inner (horizontal : Bool)
  | firstWeight
  | secondWeight
  deriving DecidableEq, Repr

namespace Field

/-- What the number may be. -/
def range : Field → CodedRange
  | outer _ => .outerTap
  | middle _ => .middleTap
  | inner _ => .innerTap
  | firstWeight => .firstWeight
  | secondWeight => .secondWeight

end Field

def get (memory : RestorationMemory) : Field → Int
  | .outer horizontal => (if horizontal then memory.horizontal else memory.vertical).outer
  | .middle horizontal => (if horizontal then memory.horizontal else memory.vertical).middle
  | .inner horizontal => (if horizontal then memory.horizontal else memory.vertical).inner
  | .firstWeight => memory.firstWeight
  | .secondWeight => memory.secondWeight

/-- Changes the taps of one pass. -/
def mapTaps (memory : RestorationMemory) (horizontal : Bool) (change : WienerTaps → WienerTaps) :
    RestorationMemory :=
  if horizontal then { memory with horizontal := change memory.horizontal }
  else { memory with vertical := change memory.vertical }

def set (memory : RestorationMemory) (field : Field) (value : Int) : RestorationMemory :=
  match field with
  | .outer horizontal => memory.mapTaps horizontal fun taps => { taps with outer := value }
  | .middle horizontal => memory.mapTaps horizontal fun taps => { taps with middle := value }
  | .inner horizontal => memory.mapTaps horizontal fun taps => { taps with inner := value }
  | .firstWeight => { memory with firstWeight := value }
  | .secondWeight => { memory with secondWeight := value }

@[simp] theorem get_set_self (memory : RestorationMemory) (field : Field) (value : Int) :
    (memory.set field value).get field = value := by
  rcases field with (_ | _) | (_ | _) | (_ | _) | _ | _ <;> rfl

end RestorationMemory

namespace RestorationFilter

open RestorationMemory (Field)

/-- What the filter of a unit depends on. -/
structure Site where
  choice : RestorationChoice
  plane : Plane
  memory : RestorationMemory
  deriving DecidableEq, Repr

/-- The numbers of a Wiener filter that a plane codes: chroma filters have no outer taps. -/
def tapFields (plane : Plane) : List Field :=
  let pass (horizontal : Bool) := [Field.middle horizontal, Field.inner horizontal]
  if plane = .luma then
    .outer false :: pass false ++ .outer true :: pass true
  else pass false ++ pass true

def tap (vertical horizontal : WienerTaps) (field : Field) : Int :=
  { RestorationMemory.initial with vertical, horizontal }.get field

/-- Whether the taps of a pass can be coded. -/
def TapsFit (plane : Plane) (taps : WienerTaps) : Prop :=
  (plane = .luma ∨ taps.outer = 0) ∧
    CodedRange.outerTap.Contains taps.outer ∧ CodedRange.middleTap.Contains taps.middle ∧
    CodedRange.innerTap.Contains taps.inner

instance (plane : Plane) (taps : WienerTaps) : Decidable (TapsFit plane taps) :=
  inferInstanceAs (Decidable (_ ∧ _ ∧ _ ∧ _))

/-- Whether a self-guided filter can be coded: a weight of a pass that is not in use is zero or
implied by the other. -/
def WeightsFit (set : Nat) (first second : Int) : Prop :=
  set < 16 ∧ CodedRange.firstWeight.Contains first ∧ CodedRange.secondWeight.Contains second ∧
    ((passes set).1 = true ∨ first = 0) ∧
    ((passes set).2 = true ∨ second = impliedSecondWeight first)

instance (set : Nat) (first second : Int) : Decidable (WeightsFit set first second) :=
  inferInstanceAs (Decidable (_ ∧ _ ∧ _ ∧ _ ∧ _))

/-- Whether a unit may have the filter. -/
def IsCodable (choice : RestorationChoice) (plane : Plane) : RestorationFilter → Prop
  | none => True
  | wiener vertical horizontal =>
      (choice = .wiener ∨ choice = .switchable) ∧ TapsFit plane vertical ∧ TapsFit plane horizontal
  | selfGuided set first second =>
      (choice = .selfGuided ∨ choice = .switchable) ∧ WeightsFit set first second

instance (choice : RestorationChoice) (plane : Plane) (filter : RestorationFilter) :
    Decidable (IsCodable choice plane filter) := by
  cases filter <;> unfold IsCodable <;> infer_instance

/-- The symbol of a filter's kind where a unit may have any. -/
def kindSymbol : RestorationFilter → Nat
  | none => 0
  | wiener .. => 1
  | selfGuided .. => 2

def writeKind (choice : RestorationChoice) (filter : RestorationFilter) : Plan Unit :=
  match choice with
  | .none => pure ()
  | .wiener => Plan.flag Table.wiener.only (filter ≠ none)
  | .selfGuided => Plan.flag Table.selfGuided.only (filter ≠ none)
  | .switchable | .reserved => Plan.symbol Table.restoration.only filter.kindSymbol

def writeField (plane : Plane) (memory : RestorationMemory) (field : Field) (value : Int) :
    Plan RestorationMemory := do
  let range := field.range
  Plan.bits (Code.signedSubexp range.low range.high range.k (memory.get field) value)
  let memory := memory.set field value
  Emit.one (.remember plane memory)
  return memory

/-- Puts a number in its place without coding it. -/
def keepField (plane : Plane) (memory : RestorationMemory) (field : Field) (value : Int) :
    Plan RestorationMemory := do
  let memory := memory.set field value
  Emit.one (.remember plane memory)
  return memory

def writeTaps (plane : Plane) (vertical horizontal : WienerTaps) :
    (memory : RestorationMemory) → List Field → Plan Unit
  | _, [] => pure ()
  | memory, field :: rest => do
      let memory ← writeField plane memory field (tap vertical horizontal field)
      writeTaps plane vertical horizontal memory rest

def write (site : Site) (filter : RestorationFilter) : Plan Unit := do
  if ¬IsCodable site.choice site.plane filter then throw .invalidElement
  writeKind site.choice filter
  match filter with
  | none => pure ()
  | wiener vertical horizontal =>
      writeTaps site.plane vertical horizontal site.memory (tapFields site.plane)
  | selfGuided set first second => do
      Plan.literal setDigits set
      let put (coded : Bool) := if coded then writeField site.plane else keepField site.plane
      let memory ← put (passes set).1 site.memory .firstWeight first
      let _ ← put (passes set).2 memory .secondWeight second

/-- Reads the kind of a filter, as the symbol it has where a unit may have any. -/
def readKind (choice : RestorationChoice) : Parse Nat :=
  match choice with
  | .none => return 0
  | .wiener => return if ← Parse.readFlag Table.wiener.only then 1 else 0
  | .selfGuided => return if ← Parse.readFlag Table.selfGuided.only then 2 else 0
  | .switchable => Parse.readSymbol Table.restoration.only
  | .reserved => Parse.fail .invalidElement

def readField (plane : Plane) (memory : RestorationMemory) (field : Field) :
    Parse RestorationMemory := do
  let range := field.range
  let value ← Code.readSignedSubexp range.low range.high range.k (memory.get field)
  let memory := memory.set field value
  Parse.save plane memory
  return memory

def readTaps (plane : Plane) : (memory : RestorationMemory) → List Field →
    Parse RestorationMemory
  | memory, [] => return memory
  | memory, field :: rest => do
      let memory ← readField plane memory field
      readTaps plane memory rest

/-- Takes the number in a place from what is implied. -/
def implyField (plane : Plane) (memory : RestorationMemory) (field : Field) (value : Int) :
    Parse RestorationMemory := do
  let memory := memory.set field value
  Parse.save plane memory
  return memory

/-- The taps that a plane has: chroma filters have no outer taps. -/
def planeTaps (plane : Plane) (taps : WienerTaps) : WienerTaps :=
  if plane = .luma then taps else { taps with outer := 0 }

def readSelfGuided (plane : Plane) (memory : RestorationMemory) : Parse RestorationFilter := do
  let set ← Parse.literal setDigits
  let memory ←
    if (passes set).1 then readField plane memory .firstWeight
    else implyField plane memory .firstWeight 0
  let memory ←
    if (passes set).2 then readField plane memory .secondWeight
    else implyField plane memory .secondWeight (impliedSecondWeight memory.firstWeight)
  return selfGuided set memory.firstWeight memory.secondWeight

def read (site : Site) : Parse RestorationFilter := do
  let kind ← readKind site.choice
  match kind with
  | 0 => return none
  | 1 => do
      let memory ← readTaps site.plane site.memory (tapFields site.plane)
      return wiener (planeTaps site.plane memory.vertical) (planeTaps site.plane memory.horizontal)
  | _ => readSelfGuided site.plane site.memory

/-- The length of the code of a number, in eighths of a bit. -/
def fieldCost (memory : RestorationMemory) (field : Field) (value : Int) : Nat :=
  let range := field.range
  Code.subexpAroundCost (Code.distance range.low range.high) range.k
    (Code.distance range.low (memory.get field)) (Code.distance range.low value)

/-- The length of all that follows the kind of a filter. -/
def detailCost (plane : Plane) (memory : RestorationMemory) : RestorationFilter → Nat
  | none => 0
  | wiener vertical horizontal =>
      ((tapFields plane).map fun field =>
        fieldCost memory field (tap vertical horizontal field)).sum
  | selfGuided set first second =>
      let cost (coded : Bool) (field : Field) (value : Int) :=
        if coded then fieldCost memory field value else 0
      8 * setDigits + cost (passes set).1 .firstWeight first +
        cost (passes set).2 .secondWeight second

end RestorationFilter

/-- The strength of the directional filter of a block, as `digits` bare bits. -/
def writeStrength (digits value : Nat) : Plan Unit := Plan.literal digits value

/-- Reads a strength, which is a byte. -/
def readStrength (digits : Nat) : Parse Nat := do
  let value ← Parse.literal digits
  return value % 256

end TileCoder
