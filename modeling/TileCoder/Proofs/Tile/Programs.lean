import TileCoder.Element
import TileCoder.Proofs.Element.Block
import TileCoder.Proofs.Element.Delta
import TileCoder.Proofs.Element.Modes
import TileCoder.Proofs.Element.Motion
import TileCoder.Proofs.Element.Palette
import TileCoder.Proofs.Element.Segment
import TileCoder.Proofs.Element.Transform
import TileCoder.Proofs.Tile.InSync

/-!
# Programs of elements

`Element.restores_write` puts together that each element is read back from the steps that write it.
With a coder that delivers these steps, a reader of a tile gets every value of a program of
elements, in whatever order they come, and has the writer's tables after each
(`readsBack_program`).
-/

namespace TileCoder

open TileCoder.Range

/-! ## Single elements -/

namespace Element

/-- The elements that are read back from their steps alone: all but references, indices of
candidates and what belongs to filter units. A map needs room where it is read. -/
def Restorable {α : Type} : Element α → Prop
  | references _ | candidate .. | restoration _ | strength _ => False
  | colorMap site room => site.area ≤ room
  | _ => True

instance {α : Type} (element : Element α) : Decidable element.Restorable := by
  cases element <;> unfold Restorable <;> infer_instance

/-- What is read where a value was written: the value, or the colours of a map in the first entries
of what is read. -/
def readBack {α : Type} : Element α → α → α
  | colorMap site room, map => Palette.copyColors site map (Array.replicate room 0)
  | _, value => value

/-- The value that is read is the one that was written, as far as it is written: of an array, the
entries of the map. -/
def SameValue {α : Type} : Element α → α → α → Prop
  | colorMap site room, written, read =>
      read.size = room ∧ ∀ i < site.area, read[i]? = written[i]?
  | _, written, read => read = written

/-- Every element is read back from the steps that write it. -/
theorem restores_write {α : Type} {element : Element α} (restorable : element.Restorable)
    (value : α) : Restores (element.write value) element.read (element.readBack value) := by
  cases element with
  | partition site => exact Partition.restores_write site value
  | lumaFactors => exact LumaFactors.restores_write value
  | segment site => exact Segment.restores_write site value
  | segmentPredicted context => exact Segment.restores_writePredicted context value
  | segmentAlone => exact Segment.restores_writeAlone value
  | transformKind site => exact TransformKind.restores_write site value
  | transformSize site => exact TransformSize.restores_write site value
  | transformSplit site => exact TransformSize.restores_writeSplit site value
  | skip near => exact restores_flag _ value
  | skipMode near => exact restores_flag _ value
  | isInter near => exact restores_flag _ value
  | intraCopy => exact restores_flag _ value
  | keyLumaMode near => exact Intra.restores_writeLumaMode rfl value
  | lumaMode size => exact Intra.restores_writeLumaMode rfl value
  | chromaMode luma size => exact Intra.restores_writeChromaMode luma size value
  | angleDelta mode => exact Intra.restores_writeAngleDelta mode value
  | filterIntra size => exact restores_flag _ value
  | filterIntraMode => exact Intra.restores_writeFilterMode value
  | lumaPalette near size => exact Palette.restores_writeLuma near size value
  | chromaPalette lumaColors => exact restores_flag _ value
  | paletteSize luma size => exact Palette.restores_writeSize luma size value
  | colorRank luma colors context => exact Palette.restores_writeRank luma colors context value
  | colorMap site room =>
      show Restores _ (Palette.readNewMap site room) _
      rw [Palette.readNewMap_eq]
      exact Palette.restores_writeMap (by rwa [Array.size_replicate])
  | interMode context => exact Inter.restores_writeMode context value
  | compoundMode context => exact Inter.restores_writeCompoundMode context value
  | nextCandidate context => exact restores_flag _ value
  | motionVector predicted precision => exact MotionVector.restores_write predicted precision value
  | interIntra size => exact restores_flag _ value
  | interIntraMode size => exact Inter.restores_writeInterIntraMode size value
  | interIntraWedge size => exact restores_flag _ value
  | wedge size => exact Inter.restores_writeWedge size value
  | compoundType size => exact Inter.restores_writeCompoundType size value
  | motionMode size mayWarp => exact Inter.restores_writeMotionMode size mayWarp value
  | interpolationFilter near direction refs =>
      exact Inter.restores_writeFilter near direction refs value
  | compoundGroup near => exact restores_flag _ value
  | compoundIndex near equalDistance => exact restores_flag _ value
  | quantizerDelta => exact Delta.restores_writeQuantizer value
  | filterDeltas each count => exact Delta.restores_writeFilters each count value
  | references | candidate | restoration | strength => exact restorable.elim

theorem sameValue_readBack {α : Type} {element : Element α} (restorable : element.Restorable)
    {value : α} (accepted : (element.write value).result = .ok ()) :
    element.SameValue value (element.readBack value) := by
  cases element with
  | colorMap site room =>
      have extent : 0 < site.width ∧ 0 < site.height ∧ site.area < addressSpace ∧
          site.area ≤ Array.size value :=
        Palette.extent_of_accepted accepted
      obtain ⟨wide, high, counted, whole⟩ := extent
      refine ⟨by simp [readBack], ?_⟩
      intro i below
      exact Palette.getElem?_copyColors wide high counted whole (by rwa [Array.size_replicate]) below
  | _ => rfl

end Element

/-! ## Programs -/

/-- An element with the value that is written for it. -/
structure Written where
  {α : Type}
  element : Element α
  value : α

namespace Written

/-- Whether the element can say the value. -/
def Accepted (written : Written) : Prop :=
  (written.element.write written.value).result = .ok ()

/-- The steps that write the value. -/
def steps (written : Written) : List Step := (written.element.write written.value).items

/-- Writes the value. -/
def write (tile : TileWriter Payload) (written : Written) : TileWriter Payload :=
  (tile.run (written.element.write written.value)).2

/-- An accepted value is read from its steps. -/
theorem follows {written : Written} (restorable : written.element.Restorable)
    (accepted : written.Accepted) :
    written.element.read.Follows written.steps (written.element.readBack written.value) :=
  Element.restores_write restorable written.value () accepted

end Written

/-- Reading gives each value that is written, with the same tables on both sides after it. -/
def ReadsInStep : List Written → TileWriter Payload → TileReader → Prop
  | [], _, _ => True
  | written :: rest, writer, reader =>
      (∃ value, (reader.run written.element.read).1 = .ok value ∧
        written.element.SameValue written.value value) ∧
          (reader.run written.element.read).2.tables = (written.write writer).tables ∧
            ReadsInStep rest (written.write writer) (reader.run written.element.read).2

section Programs

variable {writer : TileWriter Payload} {payload : List UInt8} {program : List Written}

theorem TileWriter.Sound.run_program (sound : writer.Sound)
    (restorable : ∀ written ∈ program, written.element.Restorable)
    (accepted : ∀ written ∈ program, written.Accepted) :
    (program.foldl Written.write writer).Sound := by
  induction program generalizing writer with
  | nil => exact sound
  | cons first rest ih =>
      obtain ⟨first_restorable, rest_restorable⟩ := List.forall_mem_cons.mp restorable
      obtain ⟨first_accepted, rest_accepted⟩ := List.forall_mem_cons.mp accepted
      have fits := (Written.follows first_restorable first_accepted).fits
      exact ih (sound.run fits) rest_restorable rest_accepted

/-- The interval before a program is selected by what selects the one after it. -/
theorem TileWriter.Sound.selected_of_program (sound : writer.Sound)
    (restorable : ∀ written ∈ program, written.element.Restorable)
    (accepted : ∀ written ∈ program, written.Accepted)
    (selected : (program.foldl Written.write writer).coder.interval.Selected payload) :
    writer.coder.interval.Selected payload := by
  induction program generalizing writer with
  | nil => exact selected
  | cons first rest ih =>
      obtain ⟨first_restorable, rest_restorable⟩ := List.forall_mem_cons.mp restorable
      obtain ⟨first_accepted, rest_accepted⟩ := List.forall_mem_cons.mp accepted
      have fits := (Written.follows first_restorable first_accepted).fits
      exact sound.selected_of_run fits (ih (sound.run fits) rest_restorable rest_accepted selected)

theorem InSync.readsInStep {reader : TileReader} (sync : InSync writer payload reader)
    (restorable : ∀ written ∈ program, written.element.Restorable)
    (accepted : ∀ written ∈ program, written.Accepted)
    (selected : (program.foldl Written.write writer).coder.interval.Selected payload) :
    ReadsInStep program writer reader := by
  induction program generalizing writer reader with
  | nil => trivial
  | cons first rest ih =>
      obtain ⟨first_restorable, rest_restorable⟩ := List.forall_mem_cons.mp restorable
      obtain ⟨first_accepted, rest_accepted⟩ := List.forall_mem_cons.mp accepted
      have follows := Written.follows first_restorable first_accepted
      have after : (first.write writer).Sound := sync.sound.run follows.fits
      have reached := after.selected_of_program rest_restorable rest_accepted selected
      obtain ⟨next, read, next_sync⟩ := sync.run follows reached
      rw [ReadsInStep, read]
      exact ⟨⟨_, rfl, Element.sameValue_readBack first_restorable first_accepted⟩,
        next_sync.tables_eq, ih next_sync rest_restorable rest_accepted selected⟩

end Programs

/-- **The round trip of the syntax layer.** Whatever program of elements is written, a reader of
the payload gets every value, and has the writer's tables after every element. -/
theorem readsInStep_payload (tables : Tables) (codable : tables.Codable) (adapts : Bool)
    (program : List Written) (restorable : ∀ written ∈ program, written.element.Restorable)
    (accepted : ∀ written ∈ program, written.Accepted) :
    ReadsInStep program (.new tables adapts)
      (.new (program.foldl Written.write (.new tables adapts)).coder.finish tables adapts) := by
  have sound := (TileWriter.sound_new codable adapts).run_program restorable accepted
  exact (InSync.new codable _ adapts).readsInStep restorable accepted sound.coder.selected_finish

/-- A split at the lower edge of the frame, a motion vector, a segment and a map of colours. -/
theorem readsInStep_payload_mixed :
    let program : List Written :=
      [⟨.partition ⟨0, 0, .b64x64, false, true⟩, .split⟩,
        ⟨.motionVector ⟨8, -16⟩ .quarter, ⟨-50, 1000⟩⟩,
        ⟨.segment ⟨3, 1, 5⟩, 4⟩,
        ⟨.colorMap ⟨true, 3, 2, 2⟩ 6, #[2, 0, 1, 1, 7]⟩,
        ⟨.quantizerDelta, -100⟩]
    (∀ written ∈ program, written.element.Restorable) ∧
      (∀ written ∈ program, written.Accepted) ∧
      ReadsInStep program (.new .initial true)
        (.new (program.foldl Written.write (.new .initial true)).coder.finish .initial true) := by
  intro program
  have restorable : ∀ written ∈ program, written.element.Restorable := by decide
  have accepted : ∀ written ∈ program, written.Accepted := by
    simp only [program, List.forall_mem_cons]
    exact ⟨rfl, rfl, rfl, rfl, rfl, by simp⟩
  exact ⟨restorable, accepted,
    readsInStep_payload .initial Tables.codable_initial true program restorable accepted⟩

end TileCoder
