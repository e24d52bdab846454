/-!
Trained distributions of segments, quantizers and loop filters: the cumulative probabilities of
all symbols but the last, in 32768ths, row by row.
-/

namespace TileCoder.Trained

/-- Segments without prediction. -/
def segmentId : List (List Nat) := [[4096, 8192, 12288, 16384, 20480, 24576, 28672]]

/-- Whether a segment is that of the frame before. -/
def segmentPredicted : List (List Nat) := List.replicate 3 [16384]

/-- Segments around a predicted one. -/
def spatialSegmentId : List (List Nat) :=
  [[5622, 7893, 16093, 18233, 27809, 28373, 32533],
   [14274, 18230, 22557, 24935, 29980, 30851, 32344],
   [27527, 28487, 28723, 28890, 32397, 32647, 32679]]

/-- Changes of the quantizer. -/
def quantizerDelta : List (List Nat) := [[28160, 32120, 32677]]

/-- Changes of all loop filters at once. -/
def filterDelta : List (List Nat) := [[28160, 32120, 32677]]

/-- Changes of one loop filter. -/
def filterDeltas : List (List Nat) := List.replicate 4 [28160, 32120, 32677]

/-- The restoration filter of a unit. -/
def restoration : List (List Nat) := [[9413, 22581]]

/-- Whether a unit has the self-guided filter. -/
def selfGuided : List (List Nat) := [[16855]]

/-- Whether a unit has the Wiener filter. -/
def wiener : List (List Nat) := [[11570]]

end TileCoder.Trained
