import TileCoder.Frame.Tile
import TileCoder.Proofs.Element.Restoration
import TileCoder.Proofs.Tile.Programs

/-!
# Values that are refused

A value that an element cannot say should be refused before a symbol of it is coded: a plan that
`ChecksFirst` has no steps if it ends with an error, so that a tile which carries it out is left as
it was, down to the log and the filters that its planes remember. So it is with every element
(`Element.checksFirst`) but the index of a candidate: its flags are coded on the way to finding out
that the index is none of the list, as soon as there is a flag to code (`Element.StopsMidway`). A map
with more entries than a word counts is not refused: its coding does not go on at all
(`Element.Overflows`).

What a tile codes outside of its elements is checked before it is coded, so that the only error that
leaves a trace is that the payload has outgrown its budget.
-/

namespace TileCoder

open TileCoder.Range

/-! ## Plans -/

namespace Plan

variable {α β γ : Type}

/-- A plan that no value is refused by. -/
def Certain (plan : Plan α) : Prop := ∃ value, plan.result = .ok value

/-- A plan that codes nothing if it ends with an error. -/
def ChecksFirst (plan : Plan α) : Prop :=
  ∀ error, plan.result = .error error → plan.items = []

theorem certain_all (steps : List Step) : Certain (.all steps) := ⟨(), rfl⟩

theorem certain_pure (value : α) : Certain (pure value) := ⟨value, rfl⟩

theorem certain_symbol (slot : Slot) (value : Nat) : Certain (symbol slot value) := certain_all _

theorem certain_flag (slot : Slot) (value : Bool) : Certain (flag slot value) := certain_all _

theorem Certain.bind {first : Plan α} {next : α → Plan β} (certain : first.Certain)
    (rest : ∀ value, (next value).Certain) : Certain (first >>= next) := by
  obtain ⟨value, result⟩ := certain
  rw [Emit.bind_of_ok result]
  exact rest value

theorem Certain.ite {condition : Prop} [Decidable condition] {first second : Plan α}
    (first_certain : first.Certain) (second_certain : second.Certain) :
    Certain (if condition then first else second) := by
  split
  · exact first_certain
  · exact second_certain

/-- What is coded under a condition, and what comes after it in any case. -/
theorem Certain.optional {condition : Prop} [Decidable condition] {plan : Plan Unit}
    {next : Unit → Plan α} (certain : plan.Certain) (rest : ∀ value, (next value).Certain) :
    Certain (if condition then plan >>= next else next ()) :=
  .ite (certain.bind rest) (rest ())

theorem Certain.checksFirst {plan : Plan α} (certain : plan.Certain) : plan.ChecksFirst := by
  intro error refused
  obtain ⟨value, result⟩ := certain
  rw [result] at refused
  cases refused

theorem checksFirst_throw (error : CodingError) : ChecksFirst (throw error : Plan α) :=
  fun _ _ => rfl

/-- What follows a check may use what was checked. -/
theorem ChecksFirst.check {checked : Except CodingError α} {next : α → Plan β}
    (rest : ∀ value, checked = .ok value → (next value).ChecksFirst) :
    ChecksFirst ((liftM checked : Plan α) >>= next) := by
  intro error refused
  cases checked with
  | error _ => rfl
  | ok value => exact rest value rfl error refused

theorem ChecksFirst.ite {condition : Prop} [Decidable condition] {first second : Plan α}
    (here : condition → first.ChecksFirst) (there : ¬condition → second.ChecksFirst) :
    ChecksFirst (if condition then first else second) := by
  split
  next holds => exact here holds
  next fails => exact there fails

/-- A plan may throw in front of its first step. -/
theorem ChecksFirst.unless {refused : Prop} [Decidable refused] {error : CodingError}
    {next : β → Plan γ} {plan : Plan γ} (rest : ¬refused → plan.ChecksFirst) :
    ChecksFirst (if refused then (throw error : Plan β) >>= next else plan) :=
  .ite (fun _ _ _ => rfl) rest

end Plan

open Plan

/-! ## Elements -/

theorem Partition.checksFirst_write (site : Site) (partition : Partition) :
    (write site partition).ChecksFirst := by
  unfold write
  refine ChecksFirst.unless fun _ => ?_
  cases site.hasRows <;> cases site.hasColumns
  case true.true => exact .check fun _ _ => (certain_symbol _ _).checksFirst
  case false.false =>
    exact .ite (fun _ => checksFirst_throw _) fun _ => (certain_pure ()).checksFirst
  all_goals exact .unless fun _ => (certain_all _).checksFirst

theorem LumaFactors.checksFirst_write (factors : LumaFactors) : (write factors).ChecksFirst := by
  have certain_scale (factor : LumaFactor) (other : FactorSign) :
      (writeScale factor other).Certain :=
    .ite (certain_pure ()) (certain_symbol _ _)
  unfold write
  refine .unless fun _ => Certain.checksFirst ?_
  exact (certain_symbol _ _).bind fun _ => (certain_scale _ _).bind fun _ => certain_scale _ _

namespace Segment

theorem checksFirst_write (site : Site) (segment : Nat) : (write site segment).ChecksFirst :=
  .check fun _ _ => .check fun _ _ => .check fun _ _ => (certain_symbol _ _).checksFirst

theorem checksFirst_writePredicted (context : Nat) (predicted : Bool) :
    (writePredicted context predicted).ChecksFirst :=
  .check fun _ _ => (certain_flag _ _).checksFirst

theorem checksFirst_writeAlone (segment : Nat) : (writeAlone segment).ChecksFirst :=
  .check fun _ _ => (certain_symbol _ _).checksFirst

end Segment

theorem TransformKind.checksFirst_write (site : Site) (kind : TransformKind) :
    (write site kind).ChecksFirst := by
  unfold write
  refine .unless fun _ => ?_
  exact .ite (fun _ => .check fun _ _ => (certain_symbol _ _).checksFirst)
    fun _ => (certain_pure ()).checksFirst

namespace TransformSize

theorem checksFirst_write (site : Site) (size : TransformSize) :
    (write site size).ChecksFirst := by
  unfold write
  refine .unless fun _ => .unless fun _ => ?_
  cases depthOf? site.block size with
  | none => exact checksFirst_throw _
  | some depth => exact (certain_symbol _ _).checksFirst

theorem checksFirst_writeSplit (site : SplitSite) (split : Bool) :
    (writeSplit site split).ChecksFirst := by
  unfold writeSplit
  refine .unless fun _ => .ite (fun _ => (certain_flag _ _).checksFirst) fun _ => ?_
  exact .ite (fun _ => checksFirst_throw _) fun _ => (certain_pure ()).checksFirst

end TransformSize

namespace Intra

theorem checksFirst_writeLumaMode (slot : Slot) (mode : PredictionMode) :
    (writeLumaMode slot mode).ChecksFirst :=
  .check fun _ _ => (certain_symbol _ _).checksFirst

theorem checksFirst_writeChromaMode (luma : PredictionMode) (size : BlockSize)
    (mode : PredictionMode) : (writeChromaMode luma size mode).ChecksFirst :=
  .check fun _ _ => .check fun _ _ => (certain_symbol _ _).checksFirst

theorem checksFirst_writeAngleDelta (mode : PredictionMode) (delta : Int) :
    (writeAngleDelta mode delta).ChecksFirst := by
  unfold writeAngleDelta
  exact .unless fun _ => (certain_symbol _ _).checksFirst

end Intra

namespace Palette

theorem checksFirst_writeLuma (near : Neighbours) (size : BlockSize) (enabled : Bool) :
    (writeLuma near size enabled).ChecksFirst :=
  .check fun _ _ => (certain_flag _ _).checksFirst

theorem checksFirst_writeSize (luma : Bool) (size : BlockSize) (colors : Nat) :
    (writeSize luma size colors).ChecksFirst :=
  .check fun _ _ => .check fun _ _ => (certain_symbol _ _).checksFirst

theorem checksFirst_writeRank (luma : Bool) (colors context rank : Nat) :
    (writeRank luma colors context rank).ChecksFirst :=
  .check fun _ _ => .check fun _ _ => (certain_symbol _ _).checksFirst

/-- A colour of the palette has a rank that can be coded. -/
theorem certain_writeRank (luma : Bool) {colors rank : Nat} (context : Nat)
    (size : checkSize colors = .ok ()) (inside : rank < colors) :
    (writeRank luma colors context rank).Certain := by
  have checked : checkSymbol rank colors = .ok () := checkSymbol_eq_ok.mpr inside
  unfold writeRank
  rw [size, checked]
  exact certain_symbol _ _

/-- Once the colours of a map are checked, each of their ranks can be coded. -/
theorem certain_writeRanks {site : MapSite} {map : Array Nat}
    (size : checkSize site.colors = .ok ())
    {positions : List (Nat × Nat)}
    (known : ∀ p ∈ positions, map.getD (p.1 * site.width + p.2) 0 < site.colors) :
    (writeRanks site map positions).Certain := by
  induction positions with
  | nil => exact certain_pure ()
  | cons position rest ih =>
      obtain ⟨row, column⟩ := position
      obtain ⟨here, later⟩ := List.forall_mem_cons.mp known
      have few := (checkSize_eq_ok.mp size).2
      obtain ⟨rank, rank_lt, ranked, -⟩ := exists_rank map site.width row column few here
      rw [writeRanks]
      dsimp only
      rw [ranked]
      exact (certain_writeRank _ _ size rank_lt).bind fun _ => ih later

theorem checksFirst_writeMap (site : MapSite) (map : Array Nat) :
    (writeMap site map).ChecksFirst := by
  unfold writeMap
  refine .check fun _ size => .check fun _ extent => .check fun _ colors => ?_
  obtain ⟨wide, high, -, whole⟩ := checkExtent_eq_ok.mp extent
  refine Certain.checksFirst ((certain_all _).bind fun _ => certain_writeRanks size ?_)
  intro position member
  obtain ⟨row_lt, column_lt⟩ := positions_inside wide high position member
  exact getD_lt_of_checkColors colors whole _ (entry_lt_area row_lt column_lt)

end Palette

/-- A pair that can be coded is coded to the end. -/
theorem RefPair.certain_of_codable {site : Site} {refs : RefPair} (codable : IsCodable site refs) :
    (write site refs).Certain := by
  have later (farthest middle : Slot) (ref : Reference) :
      (writeLater farthest middle ref).Certain :=
    (certain_flag _ _).bind fun _ => .ite (certain_flag _ _) (certain_pure ())
  have earlier (far lastOrLast2 last3OrGolden : Slot) (ref : Reference) :
      (writeEarlier far lastOrLast2 last3OrGolden ref).Certain :=
    (certain_flag _ _).bind fun _ => .ite (certain_flag _ _) (certain_flag _ _)
  have single : (writeSingle site.near refs.first).Certain :=
    (certain_flag _ _).bind fun _ => .ite (later _ _ _) (earlier _ _ _ _)
  have bothSides : (writeBothSides site.near refs).Certain :=
    (earlier _ _ _ _).bind fun _ => later _ _ _
  have oneSide : (writeOneSide site.near refs).Certain :=
    (certain_flag _ _).bind fun _ =>
      .ite ((certain_flag _ _).bind fun _ => .ite (certain_flag _ _) (certain_pure ()))
        (certain_pure ())
  have rest : Certain (if refs.isCompound then do
        Plan.flag site.directionSlot refs.isBidirectional
        if refs.isBidirectional then writeBothSides site.near refs else writeOneSide site.near refs
      else writeSingle site.near refs.first) :=
    .ite ((certain_flag _ _).bind fun _ => .ite bothSides oneSide) single
  unfold write
  rw [if_neg (not_not_intro codable)]
  exact Certain.optional (certain_flag _ _) fun _ => rest

theorem RefPair.write_of_not_codable {site : Site} {refs : RefPair} (not : ¬IsCodable site refs) :
    write site refs = throw .invalidElement := by
  unfold write
  rw [if_pos not]
  rfl

theorem RefPair.checksFirst_write (site : Site) (refs : RefPair) :
    (write site refs).ChecksFirst := by
  by_cases codable : IsCodable site refs
  · exact (certain_of_codable codable).checksFirst
  · rw [write_of_not_codable codable]
    exact checksFirst_throw _

namespace Inter

theorem checksFirst_writeMode (context : Nat) (mode : PredictionMode) :
    (writeMode context mode).ChecksFirst := by
  unfold writeMode
  refine .unless fun _ => Certain.checksFirst ((certain_flag _ _).bind fun _ => ?_)
  exact .ite ((certain_flag _ _).bind fun _ => .ite (certain_flag _ _) (certain_pure ()))
    (certain_pure ())

theorem checksFirst_writeCompoundMode (context : Nat) (mode : PredictionMode) :
    (writeCompoundMode context mode).ChecksFirst := by
  unfold writeCompoundMode
  exact .unless fun _ => (certain_symbol _ _).checksFirst

theorem checksFirst_writeWedge (size : BlockSize) (wedge : Nat) :
    (writeWedge size wedge).ChecksFirst :=
  .check fun _ _ => (certain_symbol _ _).checksFirst

theorem checksFirst_writeMotionMode (size : BlockSize) (mayWarp : Bool) (mode : MotionMode) :
    (writeMotionMode size mayWarp mode).ChecksFirst := by
  unfold writeMotionMode
  refine .ite (fun _ => (certain_symbol _ _).checksFirst) fun _ => ?_
  exact .unless fun _ => (certain_flag _ _).checksFirst

theorem checksFirst_writeFilter (near : Neighbours) (direction : Nat) (refs : RefPair)
    (filter : InterpolationFilter) : (writeFilter near direction refs filter).ChecksFirst :=
  .check fun _ _ => (certain_symbol _ _).checksFirst

/-- Where the first flag of a mode has nothing to tell, no later one has. -/
theorem items_writeFlags_of_le {weights : List Nat} {i : Nat} (short : weights.length ≤ i + 1)
    (index flags : Nat) : (writeFlags weights index flags i).items = [] := by
  induction flags generalizing i with
  | zero =>
      unfold writeFlags
      dsimp only
      split <;> rfl
  | succ flags ih =>
      rw [writeFlags, if_neg (by omega)]
      exact ih (by omega)

/-- Otherwise the first flag is coded, whatever the index. -/
theorem items_writeFlags_of_lt {weights : List Nat} {i : Nat} (long : i + 1 < weights.length)
    (index flags : Nat) : (writeFlags weights index (flags + 1) i).items ≠ [] := by
  rw [writeFlags, if_pos long, Plan.flag, Plan.symbol, Emit.one, Emit.bind_of_ok rfl]
  exact List.cons_ne_nil _ _

end Inter

namespace MotionVector

theorem certain_writeWholeDigits (table : Table) (whole digits i : Nat) :
    (writeWholeDigits table whole digits i).Certain := by
  induction digits generalizing i with
  | zero => exact certain_pure ()
  | succ digits ih => exact (certain_flag _ _).bind fun _ => ih _

theorem certain_writeComponent (axis : Axis) (precision : MotionPrecision) (value : Int) :
    (writeComponent axis precision value).Certain := by
  refine (certain_flag _ _).bind fun _ => (certain_symbol _ _).bind fun _ => ?_
  refine Certain.bind (.ite (certain_symbol _ _) (certain_writeWholeDigits _ _ _ _)) fun _ => ?_
  exact .optional (certain_symbol _ _) fun _ => .ite (certain_symbol _ _) (certain_pure ())

theorem checksFirst_write (predicted : MotionVector) (precision : MotionPrecision)
    (mv : MotionVector) : (write predicted precision mv).ChecksFirst := by
  unfold write
  refine .unless fun _ => Certain.checksFirst ((certain_symbol _ _).bind fun _ => ?_)
  exact .optional (certain_writeComponent _ _ _) fun _ =>
    .ite (certain_writeComponent _ _ _) (certain_pure ())

end MotionVector

namespace Delta

theorem certain_write (slot : Slot) (value : Int) : (write slot value).Certain := by
  have sign : Certain (if 0 < value.natAbs then Emit.one (.bit (value < 0)) else pure ()) :=
    .ite (certain_all _) (certain_pure ())
  refine (certain_symbol _ _).bind fun _ => ?_
  refine Certain.ite ?_ sign
  exact (certain_all _).bind fun _ => (certain_all _).bind fun _ => sign

theorem checksFirst_writeQuantizer (value : Int) : (writeQuantizer value).ChecksFirst := by
  unfold writeQuantizer
  exact .unless fun _ => (certain_write _ _).checksFirst

theorem checksFirst_writeFilters (each : Bool) (count : Nat) (values : List Int) :
    (writeFilters each count values).ChecksFirst := by
  have certain_each (i : Nat) (values : List Int) : (writeEach each i values).Certain := by
    induction values generalizing i with
    | nil => exact certain_pure ()
    | cons value rest ih => exact (certain_write _ _).bind fun _ => ih _
  unfold writeFilters
  exact .unless fun _ => .unless fun _ => (certain_each _ _).checksFirst

end Delta

theorem RestorationFilter.checksFirst_write (site : Site) (filter : RestorationFilter) :
    (write site filter).ChecksFirst := by
  by_cases codable : IsCodable site.choice site.plane filter
  · exact Certain.checksFirst ⟨(), accepted_iff.mpr codable⟩
  · unfold write
    exact .unless fun accepted => absurd (Decidable.of_not_not accepted) codable

namespace Element

variable {α : Type}

/-- Whether some of an element may be coded before its value is refused: the index of a candidate,
of a mode that has one, as soon as there is a candidate behind the first. -/
def StopsMidway : Element α → Prop
  | candidate mode weights =>
      ∃ first, Inter.firstCandidate? mode = some first ∧ first + 1 < weights.length
  | _ => False

/-- Whether the map of an element has more entries than a word counts. The multiplication that counts
them then overflows, where what is left of the product says nothing about the map any more. -/
def Overflows : Element α → Prop
  | colorMap site _ =>
      (Palette.minColors ≤ site.colors ∧ site.colors ≤ Palette.maxColors) ∧ 0 < site.width ∧
        0 < site.height ∧ addressSpace ≤ site.area
  | _ => False

theorem write_of_overflows {element : Element α} (overflows : element.Overflows) (value : α) :
    element.write value = throw .overflow := by
  cases element with
  | colorMap site room =>
      obtain ⟨sized, wide, high, beyond⟩ := overflows
      have extent (length : Nat) : site.checkExtent length = .error .overflow := by
        unfold Palette.MapSite.checkExtent
        rw [if_neg (by omega), if_pos beyond]
      show Palette.writeMap site value = _
      rw [Palette.writeMap, Palette.checkSize_eq_ok.mpr sized, extent]
      rfl
  | _ => exact overflows.elim

/-- A refused value of any other element is refused before anything is coded. -/
theorem checksFirst {element : Element α} (orderly : ¬element.StopsMidway) (value : α) :
    (element.write value).ChecksFirst := by
  cases element with
  | partition site => exact Partition.checksFirst_write site value
  | lumaFactors => exact LumaFactors.checksFirst_write value
  | segment site => exact Segment.checksFirst_write site value
  | segmentPredicted context => exact Segment.checksFirst_writePredicted context value
  | segmentAlone => exact Segment.checksFirst_writeAlone value
  | transformKind site => exact TransformKind.checksFirst_write site value
  | transformSize site => exact TransformSize.checksFirst_write site value
  | transformSplit site => exact TransformSize.checksFirst_writeSplit site value
  | keyLumaMode near => exact Intra.checksFirst_writeLumaMode _ value
  | lumaMode size => exact Intra.checksFirst_writeLumaMode _ value
  | chromaMode luma size => exact Intra.checksFirst_writeChromaMode luma size value
  | angleDelta mode => exact Intra.checksFirst_writeAngleDelta mode value
  | lumaPalette near size => exact Palette.checksFirst_writeLuma near size value
  | paletteSize luma size => exact Palette.checksFirst_writeSize luma size value
  | colorRank luma colors context => exact Palette.checksFirst_writeRank luma colors context value
  | colorMap site room => exact Palette.checksFirst_writeMap site value
  | references site => exact RefPair.checksFirst_write site value
  | interMode context => exact Inter.checksFirst_writeMode context value
  | compoundMode context => exact Inter.checksFirst_writeCompoundMode context value
  | candidate mode weights =>
      intro error refused
      show (Inter.writeCandidate mode weights value).items = []
      unfold Inter.writeCandidate
      cases found : Inter.firstCandidate? mode with
      | none => rfl
      | some first =>
          have short : weights.length ≤ first + 1 := by
            by_contra long
            exact orderly ⟨first, found, by omega⟩
          exact Inter.items_writeFlags_of_le short value 2
  | motionVector predicted precision =>
      exact MotionVector.checksFirst_write predicted precision value
  | wedge size => exact Inter.checksFirst_writeWedge size value
  | motionMode size mayWarp => exact Inter.checksFirst_writeMotionMode size mayWarp value
  | interpolationFilter near direction refs =>
      exact Inter.checksFirst_writeFilter near direction refs value
  | quantizerDelta => exact Delta.checksFirst_writeQuantizer value
  | filterDeltas each count => exact Delta.checksFirst_writeFilters each count value
  | restoration site => exact RestorationFilter.checksFirst_write site value
  | _ => exact (certain_all _).checksFirst

/-- Where something may be coded before the value is refused, something is. -/
theorem items_ne_nil {element : Element α} (midway : element.StopsMidway) (value : α) :
    (element.write value).items ≠ [] := by
  cases element with
  | candidate mode weights =>
      obtain ⟨first, found, long⟩ := midway
      show (Inter.writeCandidate mode weights value).items ≠ []
      rw [Inter.writeCandidate, found]
      exact Inter.items_writeFlags_of_lt long value 1
  | _ => exact midway.elim

end Element

/-! ## Tiles -/

section Tiles

variable {σ : Type} [Output σ] {α : Type}

/-- A tile is as it was, if nothing was coded. -/
theorem TileWriter.run_of_items_nil (tile : TileWriter σ) {plan : Plan α} (empty : plan.items = []) :
    (tile.run plan).2 = tile := by
  rw [run, empty]
  rfl

/-- An error of a tile that has coded something is that the payload has outgrown its budget. -/
theorem FrameTile.overBudget_of_charge {tile : FrameTile σ} {writer : TileWriter σ}
    {error : CodingError} (failed : (tile.charge writer).1 = .error error) :
    ∃ limit, error = .overBudget limit := by
  change checkBudget _ _ = _ at failed
  unfold checkBudget at failed
  split at failed
  · cases failed
  next limit _ =>
    split at failed
    · cases failed
      exact ⟨limit, rfl⟩
    · cases failed

theorem FrameTile.put_of_refused {tile : FrameTile σ} {primitive : Primitive α} {value : α}
    {error : CodingError} (refused : (tile.put primitive value).1 = .error error)
    (within : ∀ limit, error ≠ .overBudget limit) : (tile.put primitive value).2 = tile := by
  unfold FrameTile.put at refused ⊢
  split
  · rfl
  next passed =>
    rw [passed] at refused
    obtain ⟨limit, spent⟩ := overBudget_of_charge refused
    exact absurd spent (within limit)

theorem FrameTile.putAdapting_of_refused {tile : FrameTile σ} {cdf : Cdf} {value : Nat}
    {error : CodingError} (refused : (tile.putAdapting cdf value).2.1 = .error error)
    (within : ∀ limit, error ≠ .overBudget limit) :
    (tile.putAdapting cdf value).1 = cdf ∧ (tile.putAdapting cdf value).2.2 = tile := by
  unfold FrameTile.putAdapting at refused ⊢
  split
  · exact ⟨rfl, rfl⟩
  next passed =>
    rw [passed] at refused
    obtain ⟨limit, spent⟩ := overBudget_of_charge refused
    exact absurd spent (within limit)

end Tiles

/-- **A refused value changes nothing, but for the index of a candidate.** A tile that is told to
write a value which the element cannot say is left as it was, coder, tables, log and remembered
filters alike, unless the value is an index whose flags are coded before it is refused: some of them
always are. Nothing is said of a map with more entries than a word counts, whatever is in it: its
coding does not go on. A primitive that fails its check leaves the tile as it was, and so it does with
the row that it was given. -/
theorem unchanged_of_refused {σ : Type} [Output σ] :
    (∀ (tile : TileWriter σ) {α : Type} (element : Element α) (value : α),
        (¬element.StopsMidway → ¬element.Overflows → ∀ error,
          (tile.run (element.write value)).1 = .error error →
            (tile.run (element.write value)).2 = tile) ∧
        (element.StopsMidway → (element.write value).items ≠ []) ∧
        (element.Overflows → (tile.run (element.write value)).1 = .error .overflow)) ∧
      (∀ (tile : FrameTile σ) {α : Type} (primitive : Primitive α) (value : α)
        (error : CodingError), (tile.put primitive value).1 = .error error →
          (∀ limit, error ≠ .overBudget limit) → (tile.put primitive value).2 = tile) ∧
        ∀ (tile : FrameTile σ) (cdf : Cdf) (value : Nat) (error : CodingError),
          (tile.putAdapting cdf value).2.1 = .error error → (∀ limit, error ≠ .overBudget limit) →
            (tile.putAdapting cdf value).1 = cdf ∧ (tile.putAdapting cdf value).2.2 = tile := by
  refine ⟨?_, ?_, ?_⟩
  · intro tile α element value
    refine ⟨?_, fun midway => element.items_ne_nil midway value, ?_⟩
    · intro orderly _ error refused
      exact tile.run_of_items_nil (Element.checksFirst orderly value error refused)
    · intro overflows
      rw [Element.write_of_overflows overflows]
      rfl
  · intro tile α primitive value error refused within
    exact FrameTile.put_of_refused refused within
  · intro tile cdf value error refused within
    exact FrameTile.putAdapting_of_refused refused within

/-- The index 5 is none of a list of four candidates. Before it is refused, two flags are coded, for
which the payload grows by three bits and a row of the tables adapts. -/
theorem changed_by_refused_candidate :
    let tile : TileWriter Payload := .new .initial true
    let after := tile.run ((Element.candidate .newMv [700, 650, 100, 20]).write 5)
    after.1 = .error .invalidElement ∧ tile.coder.tell = 1 ∧ after.2.coder.tell = 4 ∧
      after.2.tables.get (Inter.candidateSlot 0) ≠ tile.tables.get (Inter.candidateSlot 0) := by
  decide +kernel

end TileCoder
