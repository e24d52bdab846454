import TileCoder.Element.ChromaFromLuma
import TileCoder.Element.Cut
import TileCoder.Element.Delta
import TileCoder.Element.Inter
import TileCoder.Element.Intra
import TileCoder.Element.Motion
import TileCoder.Element.Palette
import TileCoder.Element.References
import TileCoder.Element.Restoration
import TileCoder.Element.Segment
import TileCoder.Element.TransformTree

/-!
Syntax elements.

An `Element α` is an element with values of type `α`, together with all that a writer and a reader
both know when they come to it. `Element.write` plans the steps for a value and `Element.read`
follows them back.
-/

namespace TileCoder

/-- A syntax element and what is known before it is coded. -/
inductive Element : Type → Type where
  | partition (site : Partition.Site) : Element Partition
  | lumaFactors : Element LumaFactors
  | segment (site : Segment.Site) : Element Nat
  | segmentPredicted (context : Nat) : Element Bool
  | segmentAlone : Element Nat
  | transformKind (site : TransformKind.Site) : Element TransformKind
  | transformSize (site : TransformSize.Site) : Element TransformSize
  | transformSplit (site : TransformSize.SplitSite) : Element Bool
  | skip (near : Neighbours) : Element Bool
  | skipMode (near : Neighbours) : Element Bool
  | isInter (near : Neighbours) : Element Bool
  | intraCopy : Element Bool
  | keyLumaMode (near : Neighbours) : Element PredictionMode
  | lumaMode (size : BlockSize) : Element PredictionMode
  | chromaMode (luma : PredictionMode) (size : BlockSize) : Element PredictionMode
  | angleDelta (mode : PredictionMode) : Element Int
  | filterIntra (size : BlockSize) : Element Bool
  | filterIntraMode : Element FilterIntraMode
  | lumaPalette (near : Neighbours) (size : BlockSize) : Element Bool
  | chromaPalette (lumaColors : Nat) : Element Bool
  | paletteSize (luma : Bool) (size : BlockSize) : Element Nat
  | colorRank (luma : Bool) (colors context : Nat) : Element Nat
  /-- A map that is read into the first of `room` entries. -/
  | colorMap (site : Palette.MapSite) (room : Nat) : Element (Array Nat)
  | references (site : RefPair.Site) : Element RefPair
  | interMode (context : Nat) : Element PredictionMode
  | compoundMode (context : Nat) : Element PredictionMode
  | nextCandidate (context : Nat) : Element Bool
  | candidate (mode : PredictionMode) (weights : List Nat) : Element Nat
  | motionVector (predicted : MotionVector) (precision : MotionPrecision) : Element MotionVector
  | interIntra (size : BlockSize) : Element Bool
  | interIntraMode (size : BlockSize) : Element InterIntraMode
  | interIntraWedge (size : BlockSize) : Element Bool
  | wedge (size : BlockSize) : Element Nat
  | compoundType (size : BlockSize) : Element CompoundType
  | motionMode (size : BlockSize) (mayWarp : Bool) : Element MotionMode
  | interpolationFilter (near : Neighbours) (direction : Nat) (refs : RefPair) :
      Element InterpolationFilter
  | compoundGroup (near : Neighbours) : Element Bool
  | compoundIndex (near : Neighbours) (equalDistance : Bool) : Element Bool
  | quantizerDelta : Element Int
  | filterDeltas (each : Bool) (count : Nat) : Element (List Int)
  | restoration (site : RestorationFilter.Site) : Element RestorationFilter
  | strength (digits : Nat) : Element Nat

namespace Element

/-- The steps that write a value. -/
def write {α : Type} : Element α → α → Plan Unit
  | partition site => Partition.write site
  | lumaFactors => LumaFactors.write
  | segment site => Segment.write site
  | segmentPredicted context => Segment.writePredicted context
  | segmentAlone => Segment.writeAlone
  | transformKind site => TransformKind.write site
  | transformSize site => TransformSize.write site
  | transformSplit site => TransformSize.writeSplit site
  | skip near => Plan.flag (Inter.skipSlot near)
  | skipMode near => Plan.flag (Inter.skipModeSlot near)
  | isInter near => Plan.flag (Inter.isInterSlot near)
  | intraCopy => Plan.flag Intra.copySlot
  | keyLumaMode near => Intra.writeLumaMode (Intra.keyModeSlot near)
  | lumaMode size => Intra.writeLumaMode (Intra.modeSlot size)
  | chromaMode luma size => Intra.writeChromaMode luma size
  | angleDelta mode => Intra.writeAngleDelta mode
  | filterIntra size => Plan.flag (Intra.filterSlot size)
  | filterIntraMode => Intra.writeFilterMode
  | lumaPalette near size => Palette.writeLuma near size
  | chromaPalette lumaColors => Plan.flag (Palette.chromaSlot lumaColors)
  | paletteSize luma size => Palette.writeSize luma size
  | colorRank luma colors context => Palette.writeRank luma colors context
  | colorMap site _ => Palette.writeMap site
  | references site => RefPair.write site
  | interMode context => Inter.writeMode context
  | compoundMode context => Inter.writeCompoundMode context
  | nextCandidate context => Plan.flag (Inter.candidateSlot context)
  | candidate mode weights => Inter.writeCandidate mode weights
  | motionVector predicted precision => MotionVector.write predicted precision
  | interIntra size => Plan.flag (Inter.interIntraSlot size)
  | interIntraMode size => Inter.writeInterIntraMode size
  | interIntraWedge size => Plan.flag (Inter.interIntraWedgeSlot size)
  | wedge size => Inter.writeWedge size
  | compoundType size => Inter.writeCompoundType size
  | motionMode size mayWarp => Inter.writeMotionMode size mayWarp
  | interpolationFilter near direction refs => Inter.writeFilter near direction refs
  | compoundGroup near => Plan.flag (Inter.compoundGroupSlot near)
  | compoundIndex near equalDistance => Plan.flag (Inter.compoundIndexSlot near equalDistance)
  | quantizerDelta => Delta.writeQuantizer
  | filterDeltas each count => Delta.writeFilters each count
  | restoration site => RestorationFilter.write site
  | strength digits => writeStrength digits

/-- How to read a value. -/
def read {α : Type} : Element α → Parse α
  | partition site => Partition.read site
  | lumaFactors => LumaFactors.read
  | segment site => Segment.read site
  | segmentPredicted context => Segment.readPredicted context
  | segmentAlone => Segment.readAlone
  | transformKind site => TransformKind.read site
  | transformSize site => TransformSize.read site
  | transformSplit site => TransformSize.readSplit site
  | skip near => Parse.readFlag (Inter.skipSlot near)
  | skipMode near => Parse.readFlag (Inter.skipModeSlot near)
  | isInter near => Parse.readFlag (Inter.isInterSlot near)
  | intraCopy => Parse.readFlag Intra.copySlot
  | keyLumaMode near => Intra.readMode (Intra.keyModeSlot near)
  | lumaMode size => Intra.readMode (Intra.modeSlot size)
  | chromaMode luma size => Intra.readChromaMode luma size
  | angleDelta mode => Intra.readAngleDelta mode
  | filterIntra size => Parse.readFlag (Intra.filterSlot size)
  | filterIntraMode => Intra.readFilterMode
  | lumaPalette near size => Palette.readLuma near size
  | chromaPalette lumaColors => Parse.readFlag (Palette.chromaSlot lumaColors)
  | paletteSize luma size => Palette.readSize luma size
  | colorRank luma colors context => Palette.readRank luma colors context
  | colorMap site room => Palette.readNewMap site room
  | references site => RefPair.read site
  | interMode context => Inter.readMode context
  | compoundMode context => Inter.readCompoundMode context
  | nextCandidate context => Parse.readFlag (Inter.candidateSlot context)
  | candidate mode weights => Inter.readCandidate mode weights
  | motionVector predicted precision => MotionVector.read predicted precision
  | interIntra size => Parse.readFlag (Inter.interIntraSlot size)
  | interIntraMode size => Inter.readInterIntraMode size
  | interIntraWedge size => Parse.readFlag (Inter.interIntraWedgeSlot size)
  | wedge size => Inter.readWedge size
  | compoundType size => Inter.readCompoundType size
  | motionMode size mayWarp => Inter.readMotionMode size mayWarp
  | interpolationFilter near direction refs => Inter.readFilter near direction refs
  | compoundGroup near => Parse.readFlag (Inter.compoundGroupSlot near)
  | compoundIndex near equalDistance => Parse.readFlag (Inter.compoundIndexSlot near equalDistance)
  | quantizerDelta => Delta.readQuantizer
  | filterDeltas each count => Delta.readFilters each count
  | restoration site => RestorationFilter.read site
  | strength digits => readStrength digits

end Element

end TileCoder
