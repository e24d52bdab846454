/-!
Trained distributions of palettes: the cumulative probabilities of all symbols but the last, in
32768ths, row by row.
-/

namespace TileCoder.Trained

/-- Sizes of a luma palette, by block size. -/
def lumaPaletteSize : List (List Nat) :=
  [[7952, 13000, 18149, 21478, 25527, 29241], [7139, 11421, 16195, 19544, 23666, 28073],
   [7788, 12741, 17325, 20500, 24315, 28530], [8271, 14064, 18246, 21564, 25071, 28533],
   [12725, 19180, 21863, 24839, 27535, 30120], [9711, 14888, 16923, 21052, 25661, 27875],
   [14940, 20797, 21678, 24186, 27033, 28999]]

/-- Sizes of a chroma palette, by block size. -/
def chromaPaletteSize : List (List Nat) :=
  [[8713, 19979, 27128, 29609, 31331, 32272], [5839, 15573, 23581, 26947, 29848, 31700],
   [4426, 11260, 17999, 21483, 25863, 29430], [3228, 9464, 14993, 18089, 22523, 27420],
   [3768, 8886, 13091, 17852, 22495, 27207], [2464, 8451, 12861, 21632, 25525, 28555],
   [1269, 5435, 10433, 18963, 21700, 25865]]

/-- Whether luma has a palette, by block size and neighbours. -/
def lumaPalette : List (List Nat) :=
  [[31676], [3419], [1261], [31912], [2859], [980], [31823], [3400], [781], [32030], [3561],
   [904], [32309], [7337], [1462], [32265], [4015], [1521], [32450], [7946], [129]]

/-- Whether chroma has a palette, by whether luma has one. -/
def chromaPalette : List (List Nat) := [[32461], [21488]]

-- How a colour ranks among as many as the name says, by context.
def lumaColor2 : List (List Nat) := [[28710], [16384], [10553], [27036], [31603]]

def lumaColor3 : List (List Nat) :=
  [[27877, 30490], [11532, 25697], [6544, 30234], [23018, 28072], [31915, 32385]]

def lumaColor4 : List (List Nat) :=
  [[25572, 28046, 30045], [9478, 21590, 27256], [7248, 26837, 29824], [19167, 24486, 28349],
   [31400, 31825, 32250]]

def lumaColor5 : List (List Nat) :=
  [[24779, 26955, 28576, 30282], [8669, 20364, 24073, 28093], [4255, 27565, 29377, 31067],
   [19864, 23674, 26716, 29530], [31646, 31893, 32147, 32426]]

def lumaColor6 : List (List Nat) :=
  [[23132, 25407, 26970, 28435, 30073], [7443, 17242, 20717, 24762, 27982],
   [6300, 24862, 26944, 28784, 30671], [18916, 22895, 25267, 27435, 29652],
   [31270, 31550, 31808, 32059, 32353]]

def lumaColor7 : List (List Nat) :=
  [[23105, 25199, 26464, 27684, 28931, 30318], [6950, 15447, 18952, 22681, 25567, 28563],
   [7560, 23474, 25490, 27203, 28921, 30708], [18544, 22373, 24457, 26195, 28119, 30045],
   [31198, 31451, 31670, 31882, 32123, 32391]]

def lumaColor8 : List (List Nat) :=
  [[21689, 23883, 25163, 26352, 27506, 28827, 30195],
   [6892, 15385, 17840, 21606, 24287, 26753, 29204],
   [5651, 23182, 25042, 26518, 27982, 29392, 30900],
   [19349, 22578, 24418, 25994, 27524, 29031, 30448],
   [31028, 31270, 31504, 31705, 31927, 32153, 32392]]

def chromaColor2 : List (List Nat) := [[29089], [16384], [8713], [29257], [31610]]

def chromaColor3 : List (List Nat) :=
  [[25257, 29145], [12287, 27293], [7033, 27960], [20145, 25405], [30608, 31639]]

def chromaColor4 : List (List Nat) :=
  [[24210, 27175, 29903], [9888, 22386, 27214], [5901, 26053, 29293], [18318, 22152, 28333],
   [30459, 31136, 31926]]

def chromaColor5 : List (List Nat) :=
  [[22980, 25479, 27781, 29986], [8413, 21408, 24859, 28874], [2257, 29449, 30594, 31598],
   [19189, 21202, 25915, 28620], [31844, 32044, 32281, 32518]]

def chromaColor6 : List (List Nat) :=
  [[22217, 24567, 26637, 28683, 30548], [7307, 16406, 19636, 24632, 28424],
   [4441, 25064, 26879, 28942, 30919], [17210, 20528, 23319, 26750, 29582],
   [30674, 30953, 31396, 31735, 32207]]

def chromaColor7 : List (List Nat) :=
  [[21239, 23168, 25044, 26962, 28705, 30506], [6545, 15012, 18004, 21817, 25503, 28701],
   [3448, 26295, 27437, 28704, 30126, 31442], [15889, 18323, 21704, 24698, 26976, 29690],
   [30988, 31204, 31479, 31734, 31983, 32325]]

def chromaColor8 : List (List Nat) :=
  [[21442, 23288, 24758, 26246, 27649, 28980, 30563],
   [5863, 14933, 17552, 20668, 23683, 26411, 29273],
   [3415, 25810, 26877, 27990, 29223, 30394, 31618],
   [17965, 20084, 22232, 23974, 26274, 28402, 30390],
   [31190, 31329, 31516, 31679, 31825, 32026, 32322]]

end TileCoder.Trained
