/-!
Loop restoration filters.

A restoration unit has no filter, a Wiener filter with three taps in each direction, or a
self-guided filter with one of sixteen parameter sets and two weights. Filters are coded as
differences from the last ones of the same plane, which `RestorationMemory` keeps.
-/

namespace TileCoder

/-- The colour planes of a frame. -/
inductive Plane where
  | luma | blue | red
  deriving DecidableEq, Repr, Inhabited

/-- The plane of a number; the last one stands for all larger numbers too. -/
def Plane.ofIndex (index : Nat) : Plane := [luma, blue].getD index red

/-- The filters that the units of a frame may have. A reserved choice leaves a unit without one. -/
inductive RestorationChoice where
  | none | switchable | wiener | selfGuided | reserved
  deriving DecidableEq, Repr, Inhabited

def RestorationChoice.ofIndex (index : Nat) : RestorationChoice :=
  [none, switchable, wiener, selfGuided].getD index reserved

/-- Three taps of a symmetric filter, from the outer end. -/
structure WienerTaps where
  outer : Int
  middle : Int
  inner : Int
  deriving DecidableEq, Repr, Inhabited

def WienerTaps.toList (taps : WienerTaps) : List Int := [taps.outer, taps.middle, taps.inner]

/-- The filter of a unit. -/
inductive RestorationFilter where
  | none
  /-- Taps of the vertical and of the horizontal pass. -/
  | wiener (vertical horizontal : WienerTaps)
  /-- A parameter set and two weights. -/
  | selfGuided (set : Nat) (first second : Int)
  deriving DecidableEq, Repr, Inhabited

/-- The filters that the next one of a plane is coded from. -/
structure RestorationMemory where
  vertical : WienerTaps
  horizontal : WienerTaps
  firstWeight : Int
  secondWeight : Int
  deriving DecidableEq, Repr

namespace RestorationMemory

/-- What a plane remembers at the start of a tile. -/
def initial : RestorationMemory := ⟨⟨3, -7, 15⟩, ⟨3, -7, 15⟩, -32, 31⟩

end RestorationMemory

/-- A number coded from a reference: its least value, the one past its largest, and the width of
its first bins. -/
structure CodedRange where
  low : Int
  high : Int
  k : Nat
  deriving DecidableEq, Repr

namespace CodedRange

def Contains (range : CodedRange) (value : Int) : Prop := range.low ≤ value ∧ value < range.high

instance (range : CodedRange) (value : Int) : Decidable (range.Contains value) :=
  inferInstanceAs (Decidable (_ ∧ _))

def outerTap : CodedRange := ⟨-5, 11, 1⟩

def middleTap : CodedRange := ⟨-23, 9, 2⟩

def innerTap : CodedRange := ⟨-17, 47, 3⟩

def firstWeight : CodedRange := ⟨-96, 32, 4⟩

def secondWeight : CodedRange := ⟨-32, 96, 4⟩

end CodedRange

namespace RestorationFilter

def setDigits : Nat := 4

/-- Whether the two passes of a parameter set are in use. -/
def passes (set : Nat) : Bool × Bool :=
  if set < 10 then (true, true) else if set < 14 then (false, true) else (true, false)

/-- The second weight where it is not coded: what is missing to a whole. -/
def impliedSecondWeight (first : Int) : Int := max (-32) (min (128 - first) 95)

end RestorationFilter

end TileCoder
