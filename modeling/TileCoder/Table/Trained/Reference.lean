/-!
Trained distributions of references: the cumulative probabilities of all symbols but the last, in
32768ths, row by row.
-/

namespace TileCoder.Trained

/-- Whether there are two references. -/
def isCompound : List (List Nat) := [[26828], [24035], [12031], [10640], [2901]]

/-- Whether two references are from different sides. -/
def isBidirectional : List (List Nat) := [[1198], [2070], [9166], [7499], [22475]]

/-- The choices among pairs from one side, by context and choice. -/
def sameSideReference : List (List Nat) :=
  [[5284], [3865], [3128], [23152], [14173], [15270], [31774], [25120], [26710]]

/-- The choices among single references, by context and choice. -/
def singleReference : List (List Nat) :=
  [[4897], [1555], [4236], [8650], [904], [1444], [16973], [16751], [19647], [24773], [11014],
   [15087], [29744], [30279], [31194], [31895], [26875], [30304]]

/-- The choices among first references of a pair, by context and choice. -/
def forwardReference : List (List Nat) :=
  [[4946], [9468], [1503], [19891], [22441], [15160], [30731], [31059], [27544]]

/-- The choices among second references of a pair, by context and choice. -/
def backwardReference : List (List Nat) := [[2235], [1423], [17182], [15175], [30606], [30489]]

end TileCoder.Trained
