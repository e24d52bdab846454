/-!
Trained distributions of motion vectors: the cumulative probabilities of all symbols but the last,
in 32768ths, row by row.
-/

namespace TileCoder.Trained

/-- Which components of a motion vector are not zero. -/
def motionJoint : List (List Nat) := [[4096, 11264, 19328]]

def componentClass : List (List Nat) :=
  [[28672, 30976, 31858, 32320, 32551, 32656, 32740, 32757, 32762, 32767]]

/-- Quarters of the lowest class, by whole sample. -/
def componentQuarter0 : List (List Nat) := [[16384, 24576, 26624], [12288, 21248, 24128]]

/-- Quarters of other classes. -/
def componentQuarter : List (List Nat) := [[8192, 17408, 21248]]

def componentSign : List (List Nat) := [[16384]]

/-- The eighth of the lowest class. -/
def componentEighth0 : List (List Nat) := [[20480]]

/-- The eighth of other classes. -/
def componentEighth : List (List Nat) := [[16384]]

/-- The whole sample of the lowest class. -/
def componentWhole0 : List (List Nat) := [[27648]]

/-- The digits of whole samples of other classes. -/
def componentWhole : List (List Nat) :=
  [[17408], [17920], [18944], [20480], [22528], [24576], [28672], [29952], [29952], [30720]]

end TileCoder.Trained
