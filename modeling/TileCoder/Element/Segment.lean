import TileCoder.Element.Program

/-!
Segment numbers.

A segment number is predicted from the neighbours and coded by its distance from the prediction:
`Segment.interleave` numbers the segments by that distance.
-/

namespace TileCoder.Segment

/-- The number of segments. -/
def limit : Nat := 8

def contexts : Nat := 3

/-- The code of a number below `size`: numbers next to the reference come first, on both sides in
turn, and where one side ends the other goes on alone. -/
def interleave (value reference size : Int) : Int :=
  let distance := value - reference
  let inTurn := if 0 < distance then 2 * distance - 1 else -2 * distance
  if reference = 0 then value
  else if size - 1 ≤ reference then size - 1 - value
  else if 2 * reference < size then if distance.natAbs ≤ reference then inTurn else value
  else if distance.natAbs < size - reference then inTurn
  else size - 1 - value

/-- The number that has this code. -/
def deinterleave (code reference size : Int) : Int :=
  if reference = 0 then code
  else if size - 1 ≤ reference then size - 1 - code
  else
    let both := if 2 * reference < size then 2 * reference else 2 * (size - 1 - reference)
    if code ≤ both then
      if code % 2 = 0 then reference - code / 2 else reference + (code + 1) / 2
    else if 2 * reference < size then code
    else size - 1 - code

/-- The prediction from three neighbours, and the context: how many of the neighbours agree. -/
def predict (aboveLeft above left : Option Nat) (last : Nat) : Nat × Nat :=
  let context :=
    match aboveLeft, above, left with
    | some corner, some above, some left =>
        if corner = above ∧ corner = left then 2
        else if corner = above ∨ corner = left ∨ above = left then 1
        else 0
    | _, _, _ => 0
  let predicted :=
    match above, left with
    | none, none => 0
    | none, some left => left
    | some above, none => above
    | some above, some left => if aboveLeft = some above then above else left
  (min predicted last, context)

/-- The context of whether a segment is that of the frame before, by whether the neighbours' are. -/
def predictedContext (above left : Bool) : Nat := above.toNat + left.toNat

/-- What is known of a segment number before it is read: its prediction, the context of that, and
the last number in use. -/
structure Site where
  predicted : Nat
  context : Nat
  last : Nat
  deriving DecidableEq, Repr

namespace Site

def slot (site : Site) : Slot := Table.spatialSegmentId.at site.context

/-- The prediction as far as it is in use. -/
def reference (site : Site) : Int := (min site.predicted site.last : Nat)

/-- How many segments are in use. -/
def size (site : Site) : Int := (site.last + 1 : Nat)

end Site

def write (site : Site) (segment : Nat) : Plan Unit := do
  checkSymbol site.last limit
  checkSymbol segment (site.last + 1)
  checkSymbol (site.context % wordSize) contexts
  Plan.symbol site.slot (interleave segment site.reference site.size).toNat

def read (site : Site) : Parse Nat := do
  checkSymbol site.last limit
  checkSymbol (site.context % wordSize) contexts
  let code ← Parse.readSymbol site.slot
  let segment := deinterleave code site.reference site.size
  if 0 ≤ segment ∧ segment ≤ site.last then return segment.toNat
  else Parse.fail .corruptElement

def writePredicted (context : Nat) (predicted : Bool) : Plan Unit := do
  checkSymbol (context % wordSize) contexts
  Plan.flag (Table.segmentPredicted.at context) predicted

def readPredicted (context : Nat) : Parse Bool := do
  checkSymbol (context % wordSize) contexts
  Parse.readFlag (Table.segmentPredicted.at context)

/-- Writes a segment number without a prediction. -/
def writeAlone (segment : Nat) : Plan Unit := do
  checkSymbol segment limit
  Plan.symbol Table.segmentId.only segment

def readAlone : Parse Nat := Parse.readSymbol Table.segmentId.only

end TileCoder.Segment
