import TileCoder.Proofs.Recoding.ColorMap
import TileCoder.Proofs.Recoding.Restoration
import TileCoder.Proofs.Tile.Pieces

/-!
# Recoding elements

What is read of an element can be written (`Element.recodes`), and what is written is read back in
the same way (`Element.follows_of_takes`). A filter has to be read from a memory in range, and a
strength must fit a byte; of all other elements nothing is asked.
-/

namespace TileCoder.Element

/-- The filters of a plane are in range, and a strength is at most a byte. -/
def Recodable {α : Type} : Element α → Prop
  | restoration site => site.memory.InRange
  | strength digits => digits ≤ 8
  | _ => True

/-- **Every element that is read is written with the steps it was read through.** -/
theorem recodes {α : Type} {element : Element α} (recodable : element.Recodable) :
    Recodes element.read element.write := by
  cases element with
  | partition site => exact Partition.recodes site
  | lumaFactors => exact LumaFactors.recodes
  | segment site => exact Segment.recodes site
  | segmentPredicted context => exact Segment.recodes_predicted context
  | segmentAlone => exact Segment.recodes_alone
  | transformKind site => exact TransformKind.recodes site
  | transformSize site => exact TransformSize.recodes site
  | transformSplit site => exact TransformSize.recodes_split site
  | keyLumaMode near => exact Intra.recodes_lumaMode rfl
  | lumaMode size => exact Intra.recodes_lumaMode rfl
  | chromaMode luma size => exact Intra.recodes_chromaMode luma size
  | angleDelta mode => exact Intra.recodes_angleDelta mode
  | filterIntraMode => exact Intra.recodes_filterMode
  | lumaPalette near size => exact Palette.recodes_luma near size
  | paletteSize luma size => exact Palette.recodes_size luma size
  | colorRank luma colors context => exact Palette.recodes_rank luma colors context
  | colorMap site room => exact Palette.recodes_map site room
  | references site => exact RefPair.recodes site
  | interMode context => exact Inter.recodes_mode context
  | compoundMode context => exact Inter.recodes_compoundMode context
  | candidate mode weights => exact Inter.recodes_candidate mode weights
  | motionVector predicted precision => exact MotionVector.recodes predicted precision
  | interIntraMode size => exact Inter.recodes_interIntraMode size
  | wedge size => exact Inter.recodes_wedge size
  | compoundType size => exact Inter.recodes_compoundType size
  | motionMode size mayWarp => exact Inter.recodes_motionMode size mayWarp
  | interpolationFilter near direction refs => exact Inter.recodes_filter near direction refs
  | quantizerDelta => exact Delta.recodes_quantizer
  | filterDeltas each count => exact Delta.recodes_filters each count
  | restoration site => exact RestorationFilter.recodes recodable
  | strength digits => exact fun _ _ takes => (recodes_strength recodable takes).2
  | skip | skipMode | isInter | intraCopy | filterIntra | chromaPalette | nextCandidate | interIntra
  | interIntraWedge | compoundGroup | compoundIndex => exact recodes_flag rfl

variable {α : Type} {element : Element α} {steps : List Step} {value : α}

theorem accepted_of_takes (recodable : element.Recodable) (takes : element.read.Takes steps value) :
    (element.write value).result = .ok () ∧ (element.write value).items = steps := by
  rw [recodes recodable takes]
  exact ⟨rfl, rfl⟩

/-- What is read is a value that the caller of an element may write, unless the mode has no index of
a candidate, of which nothing is written. -/
theorem sayable_of_takes (recodable : element.Recodable) (takes : element.read.Takes steps value) :
    element.Sayable value ∨
      ∃ next : α, element.read = pure next := by
  cases element with
  | references site => exact .inl (RefPair.takes_read takes).1
  | candidate mode weights =>
      show Inter.firstCandidate? mode ≠ none ∨ ∃ next, Inter.readCandidate mode weights = pure next
      unfold Inter.readCandidate
      cases Inter.firstCandidate? mode with
      | none => exact .inr ⟨0, rfl⟩
      | some first => exact .inl nofun
  | colorMap site room =>
      obtain ⟨-, -, takes_extent⟩ := Parse.Takes.of_check takes
      obtain ⟨⟨⟩, extent, -⟩ := takes_extent.of_check
      exact .inl (Palette.checkExtent_eq_ok.mp extent).2.2.2
  | restoration site =>
      refine .inl ⟨?_, recodable⟩
      intro reserved
      obtain ⟨kind, front, back, rfl, takes_kind, -⟩ := Parse.Takes.of_bind takes
      rw [reserved] at takes_kind
      exact absurd takes_kind Parse.not_takes_fail
  | strength digits => exact .inl (recodes_strength recodable takes).1
  | _ => exact .inl trivial

/-- **A reader of what is written for the value that was read comes to that value.** -/
theorem follows_of_takes (recodable : element.Recodable) (takes : element.read.Takes steps value) :
    element.read.Follows steps value := by
  obtain ⟨accepted, items_eq⟩ := accepted_of_takes recodable takes
  rcases sayable_of_takes recodable takes with sayable | ⟨next, reads_next⟩
  · have follows := follows_of_sayable accepted sayable
    rw [items_eq] at follows
    rwa [follows.takes.unique takes] at follows
  · rw [reads_next] at takes ⊢
    obtain ⟨rfl, rfl⟩ := Parse.takes_pure.mp takes
    exact .done _

end TileCoder.Element
