import TileCoder.Proofs.Recoding.Numbers
import TileCoder.Proofs.Tile.Answers
import TileCoder.Proofs.Tile.Refusal

/-!
# Components of motion vectors

A component is read back with its magnitude rounded up to a step of the precision (`le_natAbs_roundUp`,
`natAbs_roundUp_lt`, `dvd_roundUp`). In the other direction every symbol that a reader can meet leads to
a component: the class and the samples and fractions behind it never go beyond the limit
(`classBase_add_le`), so that no payload is refused (`sure_readComponent`).
-/

namespace TileCoder.MotionVector

open TileCoder.Range

/-! ## Rounding -/

section Rounding

variable (precision : MotionPrecision) (value : Int)

theorem roundUp_lt_zero : roundUp precision value < 0 ↔ value < 0 := by
  unfold roundUp
  cases precision <;> simp only [MotionPrecision.step] <;> split <;> omega

theorem dvd_roundUp : precision.step ∣ roundUp precision value := by
  unfold roundUp
  split
  · exact Int.dvd_neg.mpr (Int.dvd_mul_left _ _)
  · exact Int.dvd_mul_left _ _

theorem le_natAbs_roundUp : value.natAbs ≤ (roundUp precision value).natAbs := by
  unfold roundUp
  cases precision <;> simp only [MotionPrecision.step] <;> split <;> omega

theorem natAbs_roundUp_lt :
    ((roundUp precision value).natAbs : Int) < value.natAbs + precision.step := by
  unfold roundUp
  cases precision <;> simp only [MotionPrecision.step] <;> split <;> omega

end Rounding

/-! ## Readers -/

/-- The last magnitude of the last class is the limit. -/
theorem classBase_add_le {cls whole : Nat} (cls_lt : cls < classes) (inside : whole < wholeSize cls) :
    classBase cls + 8 * whole + 8 ≤ 16384 := by
  have each : ∀ cls < classes, classBase cls + 8 * wholeSize cls ≤ 16384 := by decide
  have last := each cls cls_lt
  omega

theorem sure_readWholeDigits (table : Table) (digits i : Nat) :
    (readWholeDigits table digits i).Sure := by
  induction digits generalizing i with
  | zero => exact Parse.sure_pure 0
  | succ digits ih =>
      refine (Parse.sure_symbol _).bind fun _ digit _ => ?_
      exact (ih (i + 1)).bind fun _ _ _ => Parse.sure_pure _

theorem sure_readWhole (tables : ComponentTables) (cls : Nat) : (readWhole tables cls).Sure :=
  .ite (Parse.sure_symbol _) (sure_readWholeDigits _ _ _)

/-- A symbol that is only read under a condition is below a bound that its table and its default
are below. -/
theorem sure_optional {α : Type} {coded : Bool} {slot : Slot} {default bound : Nat}
    {next : Nat → Parse α} (few : slot.table.symbols ≤ bound) (default_lt : default < bound)
    (rest : ∀ value < bound, (next value).Sure) :
    (if coded then Parse.readSymbol slot >>= next else pure default >>= next).Sure := by
  cases coded with
  | true =>
      refine (Parse.sure_symbol slot).bind fun _ value takes => rest value ?_
      exact Nat.lt_of_lt_of_le (Parse.takes_readSymbol.mp takes).2 few
  | false => exact rest default default_lt

theorem signed_within (negative : Bool) {magnitude : Nat} (small : magnitude ≤ 16384) :
    -limit ≤ (if negative then -(magnitude : Int) else magnitude) ∧
      (if negative then -(magnitude : Int) else magnitude) ≤ limit := by
  unfold limit
  split <;> omega

theorem sure_readComponent (axis : Axis) (precision : MotionPrecision) :
    (readComponent axis precision).Sure := by
  unfold readComponent
  refine (Parse.sure_flag _).bind fun _ negative _ => ?_
  refine (Parse.sure_symbol _).bind fun _ cls takes_cls => ?_
  refine (sure_readWhole _ _).bind fun _ whole takes_whole => ?_
  have cls_lt : cls < classes := by
    have inside := (Parse.takes_readSymbol.mp takes_cls).2
    cases axis <;> exact inside
  have whole_lt := (recodes_whole axis takes_whole).1
  have four : (quarterSlot (.of axis) cls whole).table.symbols ≤ 4 :=
    (quarters_lt_symbols axis cls whole).le
  have two : (eighthSlot (.of axis) cls).table.symbols ≤ 2 := by
    unfold eighthSlot
    cases axis <;> split <;> exact of_decide_eq_true rfl
  refine sure_optional four (by decide) fun quarter quarter_lt => ?_
  refine sure_optional two (by decide) fun eighth eighth_lt => ?_
  have small := classBase_add_le cls_lt whole_lt
  dsimp only
  rw [if_pos (signed_within negative (by omega))]
  exact Parse.sure_pure _

/-! ## Round trips -/

/-- A component is taken with symbols of their alphabets, and is read back with its sign and its
magnitude rounded up to a step. -/
def RoundTrips (tables : Tables) (adapts : Bool) (axis : Axis) (precision : MotionPrecision)
    (value : Int) : Prop :=
  ∃ plan, component? axis precision value = some plan ∧
    (∀ slot symbol, .symbol slot symbol ∈ plan.items → symbol < slot.table.symbols) ∧
    let written := (TileWriter.new tables adapts : TileWriter Payload).run plan
    let reader := TileReader.new written.2.coder.finish tables adapts
    written.1 = .ok () ∧ ∃ read, (reader.run (readComponent axis precision)).1 = .ok read ∧
      (read < 0 ↔ value < 0) ∧ precision.step ∣ read ∧ value.natAbs ≤ read.natAbs ∧
      (read.natAbs : Int) < value.natAbs + precision.step

theorem roundTrips {tables : Tables} (codable : tables.Codable) (adapts : Bool) (axis : Axis)
    (precision : MotionPrecision) {value : Int} (isComponent : IsComponent value) :
    RoundTrips tables adapts axis precision value := by
  have accepted : (writeComponent axis precision value).result = .ok () :=
    (certain_writeComponent axis precision value).choose_spec
  have follows := restores_writeComponent axis precision isComponent () accepted
  exact ⟨_, if_pos isComponent, fun slot symbol => follows.fits (.symbol slot symbol), accepted,
    roundUp precision value, (TileReader.run_written codable adapts follows).1,
    roundUp_lt_zero precision value, dvd_roundUp precision value,
    le_natAbs_roundUp precision value, natAbs_roundUp_lt precision value⟩

/-- **Components round up to the coded precision.** A component that is not zero and not beyond the
limit is read back as the next step that is not smaller in magnitude. In the other direction a reader
comes to a component that is a step, at any place in any payload, unless the payload is used up. -/
theorem component_rounds_up (tables : Tables) (codable : tables.Codable) (adapts : Bool)
    (axis : Axis) (precision : MotionPrecision) :
    (∀ value : Int, 1 ≤ value.natAbs → value.natAbs ≤ 16384 →
      RoundTrips tables adapts axis precision value) ∧
    ∀ reader : TileReader, reader.Sound →
      let answer := (reader.run (readComponent axis precision)).1
      (∃ read, answer = .ok read ∧ read ≠ 0 ∧ precision.step ∣ read ∧ read.natAbs ≤ 16384) ∨
        answer = .error .truncatedStream := by
  refine ⟨?_, ?_⟩
  · intro value nonzero small
    have isComponent : IsComponent value := by
      unfold IsComponent limit
      omega
    exact roundTrips codable adapts axis precision isComponent
  · intro reader sound
    refine (sound.run_sure (sure_readComponent axis precision)).value_or_end.imp_left ?_
    rintro ⟨read, ok, steps, takes⟩
    obtain ⟨⟨nonzero, above, below⟩, isStep, -⟩ := recodes_component axis precision takes
    unfold limit at above below
    exact ⟨read, ok, nonzero, Int.dvd_of_emod_eq_zero isStep, by omega⟩

/-- Whole samples: a magnitude just below the last class, and two bytes that were never written. -/
theorem component_rounds_up_whole :
    let reader := TileReader.new [90, 145] .initial true
    let answer := (reader.run (readComponent .row .whole)).1
    Tables.initial.Codable ∧ reader.Sound ∧ roundUp .whole (-8191) = -8192 ∧
      RoundTrips .initial true .row .whole (-8191) ∧
      ((∃ read, answer = .ok read ∧ read ≠ 0 ∧ 8 ∣ read ∧ read.natAbs ≤ 16384) ∨
        answer = .error .truncatedStream) := by
  intro reader answer
  have codable := Tables.codable_initial
  have sound : reader.Sound := TileReader.sound_new codable _ true
  have rounds := component_rounds_up .initial codable true .row .whole
  exact ⟨codable, sound, by decide, rounds.1 (-8191) (by decide) (by decide), rounds.2 reader sound⟩

end TileCoder.MotionVector
