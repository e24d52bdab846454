/-!
Trained distributions of transforms: the cumulative probabilities of all symbols but the last, in
32768ths, row by row.
-/

namespace TileCoder.Trained

/-- Kinds of the first intra set, by size and direction. -/
def intraTransform1 : List (List Nat) :=
  [[1535, 8035, 9461, 12751, 23467, 27825], [564, 3335, 9709, 10870, 18143, 28094],
   [672, 3247, 3676, 11982, 19415, 23127], [5279, 13885, 15487, 18044, 23527, 30252],
   [4423, 6074, 7985, 10416, 25693, 29298], [1486, 4241, 9460, 10662, 16456, 27694],
   [439, 2838, 3522, 6737, 18058, 23754], [1190, 4233, 4855, 11670, 20281, 24377],
   [1045, 4312, 8647, 10159, 18644, 29335], [202, 3734, 4747, 7298, 17127, 24016],
   [447, 4312, 6819, 8884, 16010, 23858], [277, 4369, 5255, 8905, 16465, 22271],
   [3409, 5436, 10599, 15599, 19687, 24040], [1870, 13742, 14530, 16498, 23770, 27698],
   [326, 8796, 14632, 15079, 19272, 27486], [484, 7576, 7712, 14443, 19159, 22591],
   [1126, 15340, 15895, 17023, 20896, 30279], [655, 4854, 5249, 5913, 22099, 27138],
   [1299, 6458, 8885, 9290, 14851, 25497], [311, 5295, 5552, 6885, 16107, 22672],
   [883, 8059, 8270, 11258, 17289, 21549], [741, 7580, 9318, 10345, 16688, 29046],
   [110, 7406, 7915, 9195, 16041, 23329], [363, 7974, 9357, 10673, 15629, 24474],
   [153, 7647, 8112, 9936, 15307, 19996], [3511, 6332, 11165, 15335, 19323, 23594],
   [4681, 9362, 14043, 18725, 23406, 28087], [4681, 9362, 14043, 18725, 23406, 28087],
   [4681, 9362, 14043, 18725, 23406, 28087], [4681, 9362, 14043, 18725, 23406, 28087],
   [4681, 9362, 14043, 18725, 23406, 28087], [4681, 9362, 14043, 18725, 23406, 28087],
   [4681, 9362, 14043, 18725, 23406, 28087], [4681, 9362, 14043, 18725, 23406, 28087],
   [4681, 9362, 14043, 18725, 23406, 28087], [4681, 9362, 14043, 18725, 23406, 28087],
   [4681, 9362, 14043, 18725, 23406, 28087], [4681, 9362, 14043, 18725, 23406, 28087],
   [4681, 9362, 14043, 18725, 23406, 28087], [4681, 9362, 14043, 18725, 23406, 28087],
   [4681, 9362, 14043, 18725, 23406, 28087], [4681, 9362, 14043, 18725, 23406, 28087],
   [4681, 9362, 14043, 18725, 23406, 28087], [4681, 9362, 14043, 18725, 23406, 28087],
   [4681, 9362, 14043, 18725, 23406, 28087], [4681, 9362, 14043, 18725, 23406, 28087],
   [4681, 9362, 14043, 18725, 23406, 28087], [4681, 9362, 14043, 18725, 23406, 28087],
   [4681, 9362, 14043, 18725, 23406, 28087], [4681, 9362, 14043, 18725, 23406, 28087],
   [4681, 9362, 14043, 18725, 23406, 28087], [4681, 9362, 14043, 18725, 23406, 28087]]

/-- Kinds of the second intra set, by size and direction. -/
def intraTransform2 : List (List Nat) :=
  [[6554, 13107, 19661, 26214], [6554, 13107, 19661, 26214], [6554, 13107, 19661, 26214],
   [6554, 13107, 19661, 26214], [6554, 13107, 19661, 26214], [6554, 13107, 19661, 26214],
   [6554, 13107, 19661, 26214], [6554, 13107, 19661, 26214], [6554, 13107, 19661, 26214],
   [6554, 13107, 19661, 26214], [6554, 13107, 19661, 26214], [6554, 13107, 19661, 26214],
   [6554, 13107, 19661, 26214], [6554, 13107, 19661, 26214], [6554, 13107, 19661, 26214],
   [6554, 13107, 19661, 26214], [6554, 13107, 19661, 26214], [6554, 13107, 19661, 26214],
   [6554, 13107, 19661, 26214], [6554, 13107, 19661, 26214], [6554, 13107, 19661, 26214],
   [6554, 13107, 19661, 26214], [6554, 13107, 19661, 26214], [6554, 13107, 19661, 26214],
   [6554, 13107, 19661, 26214], [6554, 13107, 19661, 26214], [1127, 12814, 22772, 27483],
   [145, 6761, 11980, 26667], [362, 5887, 11678, 16725], [385, 15213, 18587, 30693],
   [25, 2914, 23134, 27903], [60, 4470, 11749, 23991], [37, 3332, 14511, 21448],
   [157, 6320, 13036, 17439], [119, 6719, 12906, 29396], [47, 5537, 12576, 21499],
   [269, 6076, 11258, 23115], [83, 5615, 12001, 17228], [1968, 5556, 12023, 18547],
   [6554, 13107, 19661, 26214], [6554, 13107, 19661, 26214], [6554, 13107, 19661, 26214],
   [6554, 13107, 19661, 26214], [6554, 13107, 19661, 26214], [6554, 13107, 19661, 26214],
   [6554, 13107, 19661, 26214], [6554, 13107, 19661, 26214], [6554, 13107, 19661, 26214],
   [6554, 13107, 19661, 26214], [6554, 13107, 19661, 26214], [6554, 13107, 19661, 26214],
   [6554, 13107, 19661, 26214]]

/-- Kinds of the first inter set, by size. -/
def interTransform1 : List (List Nat) :=
  [[4458, 5560, 7695, 9709, 13330, 14789, 17537, 20266, 21504, 22848, 23934, 25474, 27727, 28915,
    30631],
   [1645, 2573, 4778, 5711, 7807, 8622, 10522, 15357, 17674, 20408, 22517, 25010, 27116, 28856,
    30749],
   [2048, 4096, 6144, 8192, 10240, 12288, 14336, 16384, 18432, 20480, 22528, 24576, 26624, 28672,
    30720],
   [2048, 4096, 6144, 8192, 10240, 12288, 14336, 16384, 18432, 20480, 22528, 24576, 26624, 28672,
    30720]]

/-- Kinds of the second inter set, by size. -/
def interTransform2 : List (List Nat) :=
  [[2731, 5461, 8192, 10923, 13653, 16384, 19115, 21845, 24576, 27307, 30037],
   [2731, 5461, 8192, 10923, 13653, 16384, 19115, 21845, 24576, 27307, 30037],
   [770, 2421, 5225, 12907, 15819, 18927, 21561, 24089, 26595, 28526, 30529],
   [2731, 5461, 8192, 10923, 13653, 16384, 19115, 21845, 24576, 27307, 30037]]

/-- Kinds of the third inter set, by size. -/
def interTransform3 : List (List Nat) := [[16384], [4167], [1998], [748]]

/-- Splits of a transform that can be split once, by neighbours. -/
def transformDepth8 : List (List Nat) := [[19968], [19968], [24320]]

/-- Splits of a larger transform, by category and neighbours. -/
def transformDepth : List (List Nat) :=
  [[12272, 30172], [12272, 30172], [18677, 30848], [12986, 15180], [12986, 15180],
   [24302, 25602], [5782, 11475], [5782, 11475], [16803, 22759]]

/-- Whether a transform of an inter block is split. -/
def transformSplit : List (List Nat) :=
  [[28581], [23846], [20847], [24315], [18196], [12133], [18791], [10887], [11005], [27179],
   [20004], [11281], [26549], [19308], [14224], [28015], [21546], [14400], [28165], [22401],
   [16088]]

end TileCoder.Trained
