import TileCoder.Element
import TileCoder.Element.Number
import TileCoder.Proofs.Element.Block

/-!
# What readers ask for

`Parse.Safe read` says of a reader what it never does, whatever it is given: it never asks for a
flag with symbols that make none, and it never blames a row. Every element is read safely
(`Element.safe_read`), and so is every number of bare bits (`Number.safe_read`); this is all that a
tile has to know about them to be sure that its rows can be read with.

Safe readers are composed along the program: a reader is safe if what it does first is, and if all
that may come next is (`Parse.Safe.bind`).
-/

namespace TileCoder

namespace Parse

variable {α β : Type}

/-- Whatever is read, the reader gathers only symbols that make a flag, and its error is never that
a row is no distribution. -/
def Safe : Parse α → Prop
  | done _ => True
  | fail error => error ≠ .corruptCdf
  | symbol _ next => ∀ value, (next value).Safe
  | gathered slot symbols next => slot.table.Gathers symbols ∧ ∀ flag, (next flag).Safe
  | bit next => ∀ b, (next b).Safe
  | remember _ _ next => next.Safe

theorem Safe.bind {read : Parse α} {next : α → Parse β} (first : read.Safe)
    (rest : ∀ value, (next value).Safe) : (read >>= next).Safe := by
  induction read with
  | done value => exact rest value
  | fail error => exact first
  | symbol slot more ih =>
      intro value
      exact ih value (first value)
  | gathered slot symbols more ih =>
      obtain ⟨gathers, after⟩ := first
      refine ⟨gathers, ?_⟩
      intro flag
      exact ih flag (after flag)
  | bit more ih =>
      intro b
      exact ih b (first b)
  | remember plane memory more ih => exact ih first

theorem Safe.ite {condition : Prop} [Decidable condition] {first second : Parse α}
    (first_safe : first.Safe) (second_safe : second.Safe) :
    (if condition then first else second).Safe := by
  split
  · exact first_safe
  · exact second_safe

theorem safe_pure (value : α) : (pure value : Parse α).Safe := trivial

theorem safe_fail {error : CodingError} (blameless : error ≠ .corruptCdf) :
    (fail error : Parse α).Safe := blameless

/-- What is read in one of two ways, and what comes after it in either case. -/
theorem Safe.choice {condition : Prop} [Decidable condition] {first second : Parse α}
    {next : α → Parse β} (first_safe : first.Safe) (second_safe : second.Safe)
    (rest : ∀ value, (next value).Safe) :
    (if condition then first >>= next else second >>= next).Safe :=
  .ite (first_safe.bind rest) (second_safe.bind rest)

/-- A reader that gives up under a condition. -/
theorem Safe.unless {refused : Prop} [Decidable refused] {error : CodingError}
    {next : β → Parse α} {read : Parse α} (blameless : error ≠ .corruptCdf) (rest : read.Safe) :
    (if refused then (fail error : Parse β) >>= next else read).Safe :=
  .ite (safe_fail blameless) rest

theorem safe_readSymbol (slot : Slot) : (readSymbol slot).Safe := fun _ => trivial

theorem safe_readFlag (slot : Slot) : (readFlag slot).Safe := fun _ => trivial

theorem safe_ofOption (value : Option α) : (ofOption value).Safe := by
  cases value with
  | none => exact safe_fail (by simp)
  | some value => exact safe_pure value

/-- A value that is found for a symbol. -/
theorem safe_readSymbol_ofOption (slot : Slot) (find : Nat → Option α) :
    (readSymbol slot >>= fun symbol => ofOption (find symbol)).Safe :=
  (safe_readSymbol slot).bind fun _ => safe_ofOption _

theorem safe_check {checked : Except CodingError α} (blameless : checked ≠ .error .corruptCdf) :
    (liftM checked : Parse α).Safe := by
  cases checked with
  | error error =>
      apply safe_fail
      intro blames
      exact blameless (congrArg _ blames)
  | ok value => exact safe_pure value

theorem safe_checkSymbol (value arity : Nat) :
    (liftM (checkSymbol value arity) : Parse Unit).Safe := by
  apply safe_check
  unfold checkSymbol
  split <;> simp

/-! ## Bare bits -/

theorem safe_bit : (Code.bit : Parse Bool).Safe := fun _ => trivial

theorem safe_readField (width start : Nat) : (readField width start).Safe := by
  induction width generalizing start with
  | zero => exact safe_pure start
  | succ width ih =>
      intro b
      exact ih _

theorem safe_literal (width : Nat) : (literal width).Safe := safe_readField width 0

theorem safe_field (width : Nat) : (Code.field width : Parse Nat).Safe := safe_readField width 0

theorem safe_readUniform (size : Nat) : (Code.readUniform size : Parse Nat).Safe := by
  unfold Code.readUniform
  apply Safe.ite (safe_pure 0)
  apply (safe_field _).bind
  intro value
  apply Safe.ite (safe_pure value)
  exact (safe_field 1).bind fun _ => safe_pure _

theorem safe_countZeros (limit : Nat) : (Code.countZeros limit : Parse Nat).Safe := by
  induction limit with
  | zero => exact safe_pure 0
  | succ limit ih =>
      apply safe_bit.bind
      intro one
      exact .ite (safe_pure 0) (ih.bind fun _ => safe_pure _)

theorem safe_readGamma : (Code.readGamma : Parse Nat).Safe := by
  apply (safe_countZeros 32).bind
  intro zeros
  apply Safe.ite (safe_pure _)
  exact (safe_field zeros).bind fun _ => safe_pure _

theorem safe_readBin (size k i start : Nat) : (Code.readBin size k i start : Parse Nat).Safe := by
  fun_induction Code.readBin (m := Parse) size k i start with
  | case1 i start last => exact (safe_readUniform _).bind fun _ => safe_pure _
  | case2 i start more ih =>
      apply safe_bit.bind
      intro further
      apply Safe.ite ih
      exact (safe_field _).bind fun _ => safe_pure _

theorem safe_readSubexpAround (size k reference : Nat) :
    (Code.readSubexpAround size k reference : Parse Nat).Safe :=
  (safe_readBin size k 0 0).bind fun _ => safe_pure _

theorem safe_readSignedSubexp (low high : Int) (k : Nat) (reference : Int) :
    (Code.readSignedSubexp low high k reference : Parse Int).Safe :=
  (safe_readSubexpAround _ k _).bind fun _ => safe_pure _

theorem safe_readWindowTail (size span reference : Nat) (inside : Bool) :
    (Code.readWindowTail size span reference inside : Parse Nat).Safe := by
  unfold Code.readWindowTail
  apply Safe.ite
  · exact (safe_readUniform span).bind fun _ => safe_pure _
  · exact (safe_readUniform _).bind fun _ => safe_pure _

end Parse

namespace Number

open Parse

theorem safe_readSubexpFrom (k i start : Nat) : (readSubexpFrom k i start).Safe := by
  fun_induction readSubexpFrom k i start with
  | case1 => exact safe_fail (by simp)
  | case2 i start width narrow ih =>
      intro further
      apply Safe.ite
      · split
        · exact safe_fail (by simp)
        · exact ih ‹_›
      · apply (safe_literal width).bind
        intro offset
        exact .unless (by simp) (safe_pure _)

theorem safe_readBilevel (size span reference : Nat) : (readBilevel size span reference).Safe := by
  refine Safe.ite (safe_pure 0) ?_
  refine Safe.unless (by simp) ?_
  apply safe_bit.bind
  intro inside
  exact .unless (by simp) (safe_readWindowTail size span reference inside)

/-- Every number of bare bits is read safely. -/
theorem safe_read (number : Number) : number.read.Safe := by
  cases number with
  | literal width => exact safe_literal width
  | gamma => exact safe_readGamma
  | uniform size => exact safe_readUniform size
  | subexp k => exact safe_readSubexpFrom k 0 0
  | subexpBelow size k => exact safe_readBin size k 0 0
  | subexpAround size k reference => exact safe_readSubexpAround size k reference
  | bilevel size span reference => exact safe_readBilevel size span reference

end Number

/-! ## Elements -/

open Parse

theorem Partition.safe_read (site : Site) : (read site).Safe := by
  unfold read
  refine Safe.ite (safe_fail (by simp)) ?_
  cases site.hasRows <;> cases site.hasColumns
  case true.true => exact safe_readSymbol_ofOption site.slot ofIndex?
  case false.false => exact safe_pure split
  -- at an edge the only choice is a flag made of the row, and any flag will do
  all_goals
    exact Safe.bind ⟨gathers_edgeSymbols site, fun _ => trivial⟩ fun _ => safe_pure _

theorem LumaFactors.safe_readScale (sign other : FactorSign) : (readScale sign other).Safe := by
  unfold readScale
  apply Safe.ite (safe_pure _)
  exact (safe_readSymbol _).bind fun _ => safe_pure _

theorem LumaFactors.safe_read : read.Safe := by
  apply (safe_readSymbol _).bind
  intro joint
  apply (safe_readScale _ _).bind
  intro blue
  exact (safe_readScale _ _).bind fun _ => safe_pure _

namespace Segment

theorem safe_read (site : Site) : (read site).Safe := by
  apply (safe_checkSymbol _ _).bind
  intro _
  apply (safe_checkSymbol _ _).bind
  intro _
  apply (safe_readSymbol _).bind
  intro code
  exact .ite (safe_pure _) (safe_fail (by simp))

theorem safe_readPredicted (context : Nat) : (readPredicted context).Safe :=
  (safe_checkSymbol _ _).bind fun _ => safe_readFlag _

end Segment

theorem TransformKind.safe_read (site : Site) : (read site).Safe := by
  apply Safe.ite (safe_pure _)
  have direction : (liftM site.checkDirection : Parse Unit).Safe := by
    unfold Site.checkDirection
    split
    · exact safe_pure ()
    · exact safe_checkSymbol _ _
  exact direction.bind fun _ => safe_readSymbol_ofOption _ _

namespace TransformSize

theorem safe_read (site : Site) : (read site).Safe := by
  refine Safe.unless (by simp) ?_
  apply (safe_readSymbol _).bind
  intro depth
  exact .unless (by simp) (safe_pure _)

theorem safe_readSplit (site : SplitSite) : (readSplit site).Safe := by
  refine Safe.unless (by simp) ?_
  exact .ite (safe_readFlag _) (safe_pure false)

end TransformSize

namespace Intra

theorem safe_readMode (slot : Slot) : (readMode slot).Safe := safe_readSymbol_ofOption _ _

theorem safe_readChromaMode (luma : PredictionMode) (size : BlockSize) :
    (readChromaMode luma size).Safe :=
  (safe_checkSymbol _ _).bind fun _ => safe_readMode _

theorem safe_readAngleDelta (mode : PredictionMode) : (readAngleDelta mode).Safe := by
  refine Safe.unless (by simp) ?_
  exact (safe_readSymbol _).bind fun _ => safe_pure _

end Intra

namespace Palette

theorem safe_sizeContext (size : BlockSize) : (liftM (sizeContext size) : Parse Nat).Safe := by
  apply safe_check
  unfold sizeContext
  split <;> simp

theorem safe_checkSize (colors : Nat) : (liftM (checkSize colors) : Parse Unit).Safe := by
  apply safe_check
  unfold checkSize
  split <;> simp

theorem safe_checkExtent (site : MapSite) (length : Nat) :
    (liftM (site.checkExtent length) : Parse Unit).Safe := by
  apply safe_check
  unfold MapSite.checkExtent
  repeat' split
  all_goals simp

theorem safe_readLuma (near : Neighbours) (size : BlockSize) : (readLuma near size).Safe :=
  (safe_sizeContext size).bind fun _ => safe_readFlag _

theorem safe_readSize (luma : Bool) (size : BlockSize) : (readSize luma size).Safe := by
  apply (safe_sizeContext size).bind
  intro context
  exact (safe_readSymbol _).bind fun _ => safe_pure _

theorem safe_readRank (luma : Bool) (colors context : Nat) : (readRank luma colors context).Safe :=
  (safe_checkSize colors).bind fun _ => safe_readSymbol _

theorem safe_readRanks (site : MapSite) (positions : List (Nat × Nat)) (map : Array Nat) :
    (readRanks site positions map).Safe := by
  induction positions generalizing map with
  | nil => exact safe_pure map
  | cons position rest ih =>
      apply (safe_readRank _ _ _).bind
      intro rank
      exact ih _

theorem safe_readNewMap (site : MapSite) (room : Nat) : (readNewMap site room).Safe := by
  apply (safe_checkSize _).bind
  intro _
  apply (safe_checkExtent site room).bind
  intro _
  apply (safe_readUniform _).bind
  intro first
  exact safe_readRanks site _ _

end Palette

namespace RefPair

theorem safe_readLater (farthest middle : Slot) : (readLater farthest middle).Safe := by
  apply (safe_readFlag farthest).bind
  intro _
  apply Safe.ite (safe_pure _)
  apply (safe_readFlag middle).bind
  intro _
  exact .ite (safe_pure _) (safe_pure _)

theorem safe_readEarlier (far lastOrLast2 last3OrGolden : Slot) :
    (readEarlier far lastOrLast2 last3OrGolden).Safe := by
  apply (safe_readFlag far).bind
  intro _
  apply Safe.ite
  · exact (safe_readFlag _).bind fun _ => safe_pure _
  · exact (safe_readFlag _).bind fun _ => safe_pure _

theorem safe_readSingle (near : Neighbours) : (readSingle near).Safe := by
  apply (safe_readFlag _).bind
  intro _
  exact .ite (safe_readLater _ _) (safe_readEarlier _ _ _)

theorem safe_readBothSides (near : Neighbours) : (readBothSides near).Safe := by
  apply (safe_readEarlier _ _ _).bind
  intro first
  exact (safe_readLater _ _).bind fun _ => safe_pure _

theorem safe_readOneSide (near : Neighbours) : (readOneSide near).Safe := by
  apply (safe_readFlag _).bind
  intro _
  apply Safe.ite (safe_pure _)
  apply (safe_readFlag _).bind
  intro _
  apply Safe.ite _ (safe_pure _)
  exact (safe_readFlag _).bind fun _ => safe_pure _

theorem safe_read (site : Site) : (read site).Safe := by
  refine Safe.choice (safe_readFlag _) (safe_pure false) ?_
  intro isCompound
  apply Safe.ite
  · apply (safe_readFlag _).bind
    intro _
    exact .ite (safe_readBothSides _) (safe_readOneSide _)
  · exact (safe_readSingle _).bind fun _ => safe_pure _

end RefPair

namespace Inter

theorem safe_readMode (context : Nat) : (readMode context).Safe := by
  apply (safe_readFlag _).bind
  intro _
  apply Safe.ite (safe_pure _)
  apply (safe_readFlag _).bind
  intro _
  apply Safe.ite (safe_pure _)
  exact (safe_readFlag _).bind fun _ => safe_pure _

theorem safe_readFlags (weights : List Nat) (flags i index : Nat) :
    (readFlags weights flags i index).Safe := by
  induction flags generalizing i index with
  | zero => exact safe_pure index
  | succ flags ih =>
      apply Safe.ite _ (ih _ _)
      apply (safe_readFlag _).bind
      intro _
      exact .ite (ih _ _) (safe_pure i)

theorem safe_readCandidate (mode : PredictionMode) (weights : List Nat) :
    (readCandidate mode weights).Safe := by
  unfold readCandidate
  split
  · exact safe_pure 0
  · exact safe_readFlags _ _ _ _

theorem safe_readMotionMode (size : BlockSize) (mayWarp : Bool) :
    (readMotionMode size mayWarp).Safe := by
  apply Safe.ite (safe_readSymbol_ofOption _ _)
  exact (safe_readFlag _).bind fun _ => safe_pure _

end Inter

namespace MotionVector

theorem safe_readWholeDigits (table : Table) (digits i : Nat) :
    (readWholeDigits table digits i).Safe := by
  induction digits generalizing i with
  | zero => exact safe_pure 0
  | succ digits ih =>
      apply (safe_readSymbol _).bind
      intro digit
      exact (ih _).bind fun _ => safe_pure _

theorem safe_readWhole (tables : ComponentTables) (cls : Nat) : (readWhole tables cls).Safe :=
  .ite (safe_readSymbol _) (safe_readWholeDigits _ _ _)

theorem safe_readComponent (axis : Axis) (precision : MotionPrecision) :
    (readComponent axis precision).Safe := by
  apply (safe_readFlag _).bind
  intro negative
  apply (safe_readSymbol _).bind
  intro cls
  apply (safe_readWhole _ _).bind
  intro whole
  refine Safe.choice (safe_readSymbol _) (safe_pure 3) ?_
  intro quarter
  refine Safe.choice (safe_readSymbol _) (safe_pure 1) ?_
  intro eighth
  exact .ite (safe_pure _) (safe_fail (by simp))

theorem safe_read (predicted : MotionVector) (precision : MotionPrecision) :
    (read predicted precision).Safe := by
  apply (safe_readSymbol _).bind
  intro symbol
  apply (safe_ofOption _).bind
  intro joint
  refine Safe.choice (safe_readComponent _ _) (safe_pure 0) ?_
  intro row
  refine Safe.choice (safe_readComponent _ _) (safe_pure 0) ?_
  intro column
  exact .ite (safe_pure _) (safe_fail (by simp))

end MotionVector

namespace Delta

theorem safe_readMagnitude (symbol : Nat) : (readMagnitude symbol).Safe := by
  apply Safe.ite (safe_pure symbol)
  apply (safe_literal 3).bind
  intro digits
  exact (safe_literal _).bind fun _ => safe_pure _

theorem safe_read (slot : Slot) : (read slot).Safe := by
  apply (safe_readSymbol slot).bind
  intro symbol
  apply (safe_readMagnitude symbol).bind
  intro magnitude
  apply Safe.ite (safe_pure _)
  exact safe_bit.bind fun _ => safe_pure _

theorem safe_readEach (each : Bool) (count i : Nat) : (readEach each count i).Safe := by
  induction count generalizing i with
  | zero => exact safe_pure []
  | succ count ih =>
      apply (safe_read _).bind
      intro value
      exact (ih _).bind fun _ => safe_pure _

theorem safe_readFilters (each : Bool) (count : Nat) : (readFilters each count).Safe :=
  .unless (by simp) (safe_readEach each count 0)

end Delta

namespace RestorationFilter

open RestorationMemory (Field)

theorem safe_readKind (choice : RestorationChoice) : (readKind choice).Safe := by
  cases choice with
  | none => exact safe_pure 0
  | wiener => exact (safe_readFlag _).bind fun _ => safe_pure _
  | selfGuided => exact (safe_readFlag _).bind fun _ => safe_pure _
  | switchable => exact safe_readSymbol _
  | reserved => exact safe_fail (by simp)

theorem safe_save (plane : Plane) (memory : RestorationMemory) : (save plane memory).Safe := trivial

theorem safe_readField (plane : Plane) (memory : RestorationMemory) (field : Field) :
    (readField plane memory field).Safe := by
  apply (safe_readSignedSubexp _ _ _ _).bind
  intro value
  exact (safe_save _ _).bind fun _ => safe_pure _

theorem safe_implyField (plane : Plane) (memory : RestorationMemory) (field : Field) (value : Int) :
    (implyField plane memory field value).Safe :=
  (safe_save _ _).bind fun _ => safe_pure _

theorem safe_readTaps (plane : Plane) (memory : RestorationMemory) (fields : List Field) :
    (readTaps plane memory fields).Safe := by
  induction fields generalizing memory with
  | nil => exact safe_pure memory
  | cons field rest ih =>
      apply (safe_readField _ _ _).bind
      intro memory
      exact ih memory

theorem safe_readSelfGuided (plane : Plane) (memory : RestorationMemory) :
    (readSelfGuided plane memory).Safe := by
  apply (safe_literal _).bind
  intro set
  refine Safe.choice (safe_readField _ _ _) (safe_implyField _ _ _ _) ?_
  intro memory
  refine Safe.choice (safe_readField _ _ _) (safe_implyField _ _ _ _) ?_
  intro memory
  exact safe_pure _

theorem safe_read (site : Site) : (read site).Safe := by
  apply (safe_readKind _).bind
  intro kind
  split
  · exact safe_pure none
  · exact (safe_readTaps _ _ _).bind fun _ => safe_pure _
  · exact safe_readSelfGuided _ _

end RestorationFilter

/-- **Every element is read safely**, whatever is known before it. -/
theorem Element.safe_read {α : Type} (element : Element α) : element.read.Safe := by
  cases element with
  | partition site => exact Partition.safe_read site
  | lumaFactors => exact LumaFactors.safe_read
  | segment site => exact Segment.safe_read site
  | segmentPredicted context => exact Segment.safe_readPredicted context
  | transformKind site => exact TransformKind.safe_read site
  | transformSize site => exact TransformSize.safe_read site
  | transformSplit site => exact TransformSize.safe_readSplit site
  | skip | skipMode | isInter | intraCopy | filterIntra | chromaPalette | nextCandidate | interIntra
  | interIntraWedge | compoundGroup | compoundIndex => exact safe_readFlag _
  | keyLumaMode | lumaMode => exact Intra.safe_readMode _
  | chromaMode luma size => exact Intra.safe_readChromaMode luma size
  | angleDelta mode => exact Intra.safe_readAngleDelta mode
  | filterIntraMode | compoundMode | interIntraMode | compoundType | interpolationFilter =>
      exact safe_readSymbol_ofOption _ _
  | lumaPalette near size => exact Palette.safe_readLuma near size
  | paletteSize luma size => exact Palette.safe_readSize luma size
  | colorRank luma colors context => exact Palette.safe_readRank luma colors context
  | colorMap site room => exact Palette.safe_readNewMap site room
  | references site => exact RefPair.safe_read site
  | interMode context => exact Inter.safe_readMode context
  | candidate mode weights => exact Inter.safe_readCandidate mode weights
  | motionVector predicted precision => exact MotionVector.safe_read predicted precision
  | segmentAlone | wedge => exact safe_readSymbol _
  | motionMode size mayWarp => exact Inter.safe_readMotionMode size mayWarp
  | quantizerDelta => exact Delta.safe_read _
  | filterDeltas each count => exact Delta.safe_readFilters each count
  | restoration site => exact RestorationFilter.safe_read site
  | strength digits => exact (safe_literal digits).bind fun _ => safe_pure _

end TileCoder
