/-!
Trained distributions of partitions: the cumulative probabilities of all symbols but the last, in
32768ths, row by row.
-/

namespace TileCoder.Trained

/-- How an 8 by 8 block is cut, by context. -/
def partition8 : List (List Nat) :=
  [[19132, 25510, 30392], [13928, 19855, 28540], [12522, 23679, 28629], [9896, 18783, 25853]]

/-- How a 128 by 128 block is cut, by context. -/
def partition128 : List (List Nat) :=
  [[27899, 28219, 28529, 32484, 32539, 32619, 32639],
   [6607, 6990, 8268, 32060, 32219, 32338, 32371],
   [5429, 6676, 7122, 32027, 32227, 32531, 32582], [711, 966, 1172, 32448, 32538, 32617, 32664]]

/-- How a block of 16, 32 or 64 samples is cut, by size and context. -/
def partition : List (List Nat) :=
  [[15597, 20929, 24571, 26706, 27664, 28821, 29601, 30571, 31902],
   [7925, 11043, 16785, 22470, 23971, 25043, 26651, 28701, 29834],
   [5414, 13269, 15111, 20488, 22360, 24500, 25537, 26336, 32117],
   [2662, 6362, 8614, 20860, 23053, 24778, 26436, 27829, 31171],
   [18462, 20920, 23124, 27647, 28227, 29049, 29519, 30178, 31544],
   [7689, 9060, 12056, 24992, 25660, 26182, 26951, 28041, 29052],
   [6015, 9009, 10062, 24544, 25409, 26545, 27071, 27526, 32047],
   [1394, 2208, 2796, 28614, 29061, 29466, 29840, 30185, 31899],
   [20137, 21547, 23078, 29566, 29837, 30261, 30524, 30892, 31724],
   [6732, 7490, 9497, 27944, 28250, 28515, 28969, 29630, 30104],
   [5945, 7663, 8348, 28683, 29117, 29749, 30064, 30298, 32238],
   [870, 1212, 1487, 31198, 31394, 31574, 31743, 31881, 32332]]

end TileCoder.Trained
