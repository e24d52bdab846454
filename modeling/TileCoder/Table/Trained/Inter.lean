/-!
Trained distributions of inter prediction: the cumulative probabilities of all symbols but the
last, in 32768ths, row by row.
-/

namespace TileCoder.Trained

/-- Whether the block has no residue, by neighbours. -/
def skip : List (List Nat) := [[31671], [16515], [4576]]

/-- Whether the block has nothing but references, by neighbours. -/
def skipMode : List (List Nat) := [[32621], [20708], [8127]]

/-- Whether the block is predicted from other frames, by neighbours. -/
def isInter : List (List Nat) := [[806], [16662], [20186], [26538]]

/-- Whether no motion vector is coded. -/
def isNotNewMv : List (List Nat) := [[24035], [16630], [15339], [8386], [12222], [4676]]

/-- Whether the motion is not that of the frame. -/
def isNotGlobalMv : List (List Nat) := [[2175], [1054]]

/-- Whether the motion is not that of the first candidate. -/
def isNotNearestMv : List (List Nat) := [[23974], [24188], [17848], [28622], [24312], [19923]]

/-- Whether to go on in the list of candidates. -/
def nextCandidate : List (List Nat) := [[13104], [24560], [18945]]

/-- Modes with two references. -/
def compoundMode : List (List Nat) :=
  [[7760, 13823, 15808, 17641, 19156, 20666, 26891],
   [10730, 19452, 21145, 22749, 24039, 25131, 28724],
   [10664, 20221, 21588, 22906, 24295, 25387, 28436],
   [13298, 16984, 20471, 24182, 25067, 25736, 26422],
   [18904, 23325, 25242, 27432, 27898, 28258, 30758],
   [10725, 17454, 20124, 22820, 24195, 25168, 26046],
   [17125, 24273, 25814, 27492, 28214, 28704, 30592],
   [13046, 23214, 24505, 25942, 27435, 28442, 29330]]

/-- Whether an inter block is also predicted from itself, by size group. -/
def interIntra : List (List Nat) := [[16384], [26887], [27597], [30237]]

/-- How it is, by size group. -/
def interIntraMode : List (List Nat) :=
  [[8192, 16384, 24576], [1875, 11082, 27332], [2473, 9996, 26388], [4238, 11537, 25926]]

/-- Whether a wedge masks the two, by size. -/
def interIntraWedge : List (List Nat) :=
  [[16384], [16384], [16384], [20036], [24957], [26704], [27530], [29564], [29444], [26872],
   [16384], [16384], [16384], [16384], [16384], [16384], [16384], [16384], [16384], [16384],
   [16384], [16384]]

/-- How two predictions are masked, by size. -/
def compoundType : List (List Nat) :=
  [[16384], [16384], [16384], [23431], [13171], [11470], [9770], [9100], [8233], [6172], [16384],
   [16384], [16384], [16384], [16384], [16384], [16384], [16384], [11820], [7701], [16384],
   [16384]]

/-- The wedge, by size. -/
def wedgeIndex : List (List Nat) :=
  [[2048, 4096, 6144, 8192, 10240, 12288, 14336, 16384, 18432, 20480, 22528, 24576, 26624, 28672,
    30720],
   [2048, 4096, 6144, 8192, 10240, 12288, 14336, 16384, 18432, 20480, 22528, 24576, 26624, 28672,
    30720],
   [2048, 4096, 6144, 8192, 10240, 12288, 14336, 16384, 18432, 20480, 22528, 24576, 26624, 28672,
    30720],
   [2438, 4440, 6599, 8663, 11005, 12874, 15751, 18094, 20359, 22362, 24127, 25702, 27752, 29450,
    31171],
   [806, 3266, 6005, 6738, 7218, 7367, 7771, 14588, 16323, 17367, 18452, 19422, 22839, 26127,
    29629],
   [2779, 3738, 4683, 7213, 7775, 8017, 8655, 14357, 17939, 21332, 24520, 27470, 29456, 30529,
    31656],
   [1684, 3625, 5675, 7108, 9302, 11274, 14429, 17144, 19163, 20961, 22884, 24471, 26719, 28714,
    30877],
   [1142, 3491, 6277, 7314, 8089, 8355, 9023, 13624, 15369, 16730, 18114, 19313, 22521, 26012,
    29550],
   [2742, 4195, 5727, 8035, 8980, 9336, 10146, 14124, 17270, 20533, 23434, 25972, 27944, 29570,
    31416],
   [1727, 3948, 6101, 7796, 9841, 12344, 15766, 18944, 20638, 22038, 23963, 25311, 26988, 28766,
    31012],
   [2048, 4096, 6144, 8192, 10240, 12288, 14336, 16384, 18432, 20480, 22528, 24576, 26624, 28672,
    30720],
   [2048, 4096, 6144, 8192, 10240, 12288, 14336, 16384, 18432, 20480, 22528, 24576, 26624, 28672,
    30720],
   [2048, 4096, 6144, 8192, 10240, 12288, 14336, 16384, 18432, 20480, 22528, 24576, 26624, 28672,
    30720],
   [2048, 4096, 6144, 8192, 10240, 12288, 14336, 16384, 18432, 20480, 22528, 24576, 26624, 28672,
    30720],
   [2048, 4096, 6144, 8192, 10240, 12288, 14336, 16384, 18432, 20480, 22528, 24576, 26624, 28672,
    30720],
   [2048, 4096, 6144, 8192, 10240, 12288, 14336, 16384, 18432, 20480, 22528, 24576, 26624, 28672,
    30720],
   [2048, 4096, 6144, 8192, 10240, 12288, 14336, 16384, 18432, 20480, 22528, 24576, 26624, 28672,
    30720],
   [2048, 4096, 6144, 8192, 10240, 12288, 14336, 16384, 18432, 20480, 22528, 24576, 26624, 28672,
    30720],
   [154, 987, 1925, 2051, 2088, 2111, 2151, 23033, 23703, 24284, 24985, 25684, 27259, 28883,
    30911],
   [1135, 1322, 1493, 2635, 2696, 2737, 2770, 21016, 22935, 25057, 27251, 29173, 30089, 30960,
    31933],
   [2048, 4096, 6144, 8192, 10240, 12288, 14336, 16384, 18432, 20480, 22528, 24576, 26624, 28672,
    30720],
   [2048, 4096, 6144, 8192, 10240, 12288, 14336, 16384, 18432, 20480, 22528, 24576, 26624, 28672,
    30720]]

/-- How motion varies, by size. -/
def motionMode : List (List Nat) :=
  [[10923, 21845], [10923, 21845], [10923, 21845], [7651, 24760], [4738, 24765], [5391, 25528],
   [19419, 26810], [5123, 23606], [11606, 24308], [26260, 29116], [20360, 28062], [21679, 26830],
   [29516, 30701], [28898, 30397], [30878, 31335], [32507, 32558], [10923, 21845],
   [10923, 21845], [28799, 31390], [26431, 30774], [28973, 31594], [29742, 31203]]

/-- Whether motion is overlapped where it cannot be warped, by size. -/
def overlappedMotion : List (List Nat) :=
  [[16384], [16384], [16384], [10437], [9371], [9301], [17432], [14423], [15142], [25817],
   [22823], [22083], [30128], [31014], [31560], [32638], [16384], [16384], [23664], [20901],
   [24008], [26879]]

/-- Interpolation filters, by neighbours. -/
def interpolationFilter : List (List Nat) :=
  [[31935, 32720], [5568, 32719], [422, 2938], [28244, 32608], [31206, 31953], [4862, 32121],
   [770, 1152], [20889, 25637], [31910, 32724], [4120, 32712], [305, 2247], [27403, 32636],
   [31022, 32009], [2963, 32093], [601, 943], [14969, 21398]]

/-- Whether two predictions weigh the same. -/
def compoundIndex : List (List Nat) := [[18244], [12865], [7053], [13259], [9334], [4644]]

/-- Whether two predictions are masked. -/
def compoundGroup : List (List Nat) := [[26607], [22891], [18840], [24594], [19934], [22674]]

end TileCoder.Trained
