import Mathlib.Tactic
import TileCoder.Element.Motion
import TileCoder.Proofs.Element.Follows

/-!
# Motion vectors

A component is read back as it was written, up to its precision: `roundUp` is the next step that is
not smaller in magnitude (`restores_writeComponent`). A vector is only accepted if both differences
are steps, so it is read back as it is (`restores_write`).
-/

namespace TileCoder.MotionVector

/-! ## Classes -/

theorem classBase_mod (cls : Nat) : classBase cls % 8 = 0 := by
  unfold classBase
  split
  · rfl
  · rw [Nat.pow_add]
    exact Nat.mul_mod_left _ _

/-- How many whole samples the offsets of a class count. -/
def wholeSize (cls : Nat) : Nat := if cls = 0 then 2 else 2 ^ cls

/-- Fewer than two whole samples are of the first class. -/
theorem log2_of_lt_two {n : Nat} (few : n < 2) : n.log2 = 0 := by
  have one_or_none : n = 0 ∨ n = 1 := by omega
  rcases one_or_none with rfl | rfl <;> decide

/-- A magnitude is its offset behind the base of its class, and the offset has no more whole samples
than the class counts. -/
theorem classOf_spec {magnitude cls offset : Nat} (small : magnitude < 16384)
    (cut : classOf magnitude = (cls, offset)) :
    cls < classes ∧ classBase cls + offset = magnitude ∧ offset / 8 < wholeSize cls := by
  obtain ⟨rfl, rfl⟩ := Prod.mk.inj cut
  unfold classes wholeSize classBase
  -- the last class takes all magnitudes beyond it, and the first one two whole samples
  by_cases last : 8192 ≤ magnitude
  · simp only [if_pos last]
    norm_num
    omega
  simp only [if_neg last]
  by_cases first : magnitude / 8 < 2
  · rw [log2_of_lt_two first]
    norm_num
    omega
  · have nonzero : magnitude / 8 ≠ 0 := by omega
    have low := Nat.log2_self_le nonzero
    have high := Nat.lt_log2_self (n := magnitude / 8)
    have few : (magnitude / 8).log2 < 10 := (Nat.log2_lt nonzero).mpr (by omega)
    have one_le : 1 ≤ (magnitude / 8).log2 := (Nat.le_log2 nonzero).mpr (by omega)
    rw [if_neg (by omega), if_neg (by omega)]
    rw [Nat.pow_succ] at high
    rw [Nat.pow_add]
    omega

/-! ## Whole samples -/

theorem restores_writeWholeDigits (table : Table) (whole digits i : Nat) :
    Restores (writeWholeDigits table whole digits i) (readWholeDigits table digits i)
      (whole / 2 ^ i % 2 ^ digits) := by
  induction digits generalizing i with
  | zero =>
      rw [Nat.pow_zero, Nat.mod_one]
      exact restores_pure () 0
  | succ digits ih =>
      have digit : (whole.testBit i).toNat < (table.at i).table.symbols :=
        Nat.lt_of_lt_of_le (Bool.toNat_lt _) table.two_le_symbols
      rw [writeWholeDigits, readWholeDigits]
      apply (restores_symbol digit).bind
      intro _ _
      apply (ih (i + 1)).ending
      rw [Nat.toNat_testBit, Nat.pow_succ, ← Nat.div_div_eq_div_mul, Nat.pow_succ',
        Nat.mod_mul]

theorem restores_writeWhole (axis : Axis) {cls whole : Nat} (inside : whole < wholeSize cls) :
    Restores (writeWhole (.of axis) cls whole) (readWhole (.of axis) cls) whole := by
  unfold wholeSize at inside
  unfold writeWhole readWhole
  split
  next first =>
    rw [if_pos first] at inside
    exact restores_symbol (Nat.lt_of_lt_of_le inside (Table.two_le_symbols _))
  next later =>
    rw [if_neg later] at inside
    have digits := restores_writeWholeDigits (ComponentTables.of axis).whole whole cls 0
    rwa [Nat.pow_zero, Nat.div_one, Nat.mod_eq_of_lt inside] at digits

/-! ## Components -/

/-- A component, rounded away from zero to a step of the precision. -/
def roundUp (precision : MotionPrecision) (value : Int) : Int :=
  let magnitude := (value.natAbs + precision.step - 1) / precision.step * precision.step
  if value < 0 then -magnitude else magnitude

/-- The largest magnitude is a step of every precision, so that rounding stays within it. -/
theorem roundUp_within (precision : MotionPrecision) {value : Int} (above : -limit ≤ value)
    (below : value ≤ limit) :
    -limit ≤ roundUp precision value ∧ roundUp precision value ≤ limit := by
  unfold limit at *
  have small : value.natAbs ≤ 16384 := by omega
  unfold roundUp
  generalize value.natAbs = magnitude at small
  cases precision <;> simp only [MotionPrecision.step] <;> split <;> omega

theorem roundUp_of_step {precision : MotionPrecision} {value : Int}
    (isStep : value % precision.step = 0) : roundUp precision value = value := by
  unfold roundUp
  cases precision <;> simp only [MotionPrecision.step] at isStep ⊢ <;> split <;> omega

/-- What is read of the quarters of an offset. -/
def quarters (precision : MotionPrecision) (offset : Nat) : Nat :=
  if codesQuarters precision then offset / 2 % 4 else 3

/-- What is read of the last eighth of an offset. -/
def eighth (precision : MotionPrecision) (offset : Nat) : Nat :=
  if codesEighths precision then offset % 2 else 1

/-- The magnitude that is read is the one written, rounded up. -/
theorem magnitude_eq (precision : MotionPrecision) {value : Int} {cls offset : Nat}
    (nonzero : value ≠ 0) (sum : classBase cls + offset = value.natAbs - 1) :
    ((classBase cls + (8 * (offset / 8) + 2 * quarters precision offset +
        eighth precision offset) + 1 : Nat) : Int) =
      (value.natAbs + precision.step - 1) / precision.step * precision.step := by
  have aligned := classBase_mod cls
  have positive : 0 < value.natAbs := Int.natAbs_pos.mpr nonzero
  generalize value.natAbs = magnitude at sum positive
  unfold quarters eighth
  cases precision <;> simp [codesQuarters, codesEighths, MotionPrecision.step] <;> omega

theorem quarters_lt_symbols (axis : Axis) (cls whole : Nat) :
    (quarterSlot (.of axis) cls whole).table.symbols = 4 := by
  unfold quarterSlot
  cases axis <;> split <;> rfl

theorem restores_writeComponent (axis : Axis) (precision : MotionPrecision) {value : Int}
    (codable : IsComponent value) :
    Restores (writeComponent axis precision value) (readComponent axis precision)
      (roundUp precision value) := by
  obtain ⟨nonzero, above, below⟩ := codable
  have small : value.natAbs - 1 < 16384 := by
    unfold limit at above below
    omega
  unfold writeComponent readComponent
  dsimp only
  cases cut : classOf (value.natAbs - 1) with
  | mk cls offset =>
  obtain ⟨few, sum, inside⟩ := classOf_spec small cut
  apply (restores_flag _ _).bind
  intro _ _
  have cls_lt : cls < (ComponentTables.of axis).cls.only.table.symbols := by
    cases axis <;> exact few
  apply (restores_symbol cls_lt).bind
  intro _ _
  apply (restores_writeWhole axis inside).bind
  intro _ _
  -- the fractions that the precision leaves out are read as the largest ones
  have quarter_lt : offset / 2 % 4 < (quarterSlot (.of axis) cls (offset / 8)).table.symbols := by
    rw [quarters_lt_symbols]
    omega
  apply Restores.optional fun _ => restores_symbol quarter_lt
  have eighth_lt : offset % 2 < (eighthSlot (.of axis) cls).table.symbols :=
    Nat.lt_of_lt_of_le (Nat.mod_lt _ (by decide)) (Table.two_le_symbols _)
  apply Restores.optional_ending fun _ => restores_symbol eighth_lt
  rw [← quarters, ← eighth, magnitude_eq precision nonzero sum]
  have value_eq : (if decide (value < 0) = true then
      -((value.natAbs + precision.step - 1) / precision.step * precision.step)
      else (value.natAbs + precision.step - 1) / precision.step * precision.step) =
      roundUp precision value := by
    simp only [decide_eq_true_eq]
    rfl
  rw [value_eq]
  exact if_pos (roundUp_within precision above below)

/-! ## Vectors -/

theorem all_getElem?_joint (joint : MotionJoint) : MotionJoint.all[joint.index]? = some joint := by
  cases joint <;> rfl

/-- A component is written exactly if it is not zero. -/
theorem hasRow_joint (mv : MotionVector) : mv.joint.hasRow = decide (mv.row ≠ 0) := by
  unfold joint
  split_ifs <;> simp_all [MotionJoint.hasRow]

theorem hasColumn_joint (mv : MotionVector) : mv.joint.hasColumn = decide (mv.column ≠ 0) := by
  unfold joint
  split_ifs <;> simp_all [MotionJoint.hasColumn]

theorem restores_writeComponent_of_step (axis : Axis) {precision : MotionPrecision} {value : Int}
    (codable : IsCodable precision value) (nonzero : value ≠ 0) :
    Restores (writeComponent axis precision value) (readComponent axis precision) value := by
  obtain ⟨above, below, isStep⟩ := codable
  have rounded := restores_writeComponent axis precision ⟨nonzero, above, below⟩
  rwa [roundUp_of_step isStep] at rounded

theorem restores_write (predicted : MotionVector) (precision : MotionPrecision)
    (mv : MotionVector) :
    Restores (write predicted precision mv) (read predicted precision) mv := by
  unfold write read
  apply Restores.unless
  intro accepted
  obtain ⟨valid, row, column⟩ : mv.IsValid ∧ IsCodable precision (mv.minus predicted).row ∧
      IsCodable precision (mv.minus predicted).column := by
    simpa only [not_or, not_not] using accepted
  have joint_lt : (mv.minus predicted).joint.index < 4 := by
    cases (mv.minus predicted).joint <;> decide
  apply (restores_symbol joint_lt).bind
  intro _ _
  rw [all_getElem?_joint]
  -- a component that is not written is zero
  have whole (component : Int) (coded : Bool) (given : coded = decide (component ≠ 0)) :
      (if coded then component else 0) = component := by
    subst given
    by_cases zero : component = 0 <;> simp [zero]
  apply Restores.optional fun coded =>
    restores_writeComponent_of_step .row row (by simpa [hasRow_joint] using coded)
  rw [whole _ _ (hasRow_joint _)]
  apply Restores.optional_ending fun coded =>
    restores_writeComponent_of_step .column column (by simpa [hasColumn_joint] using coded)
  rw [whole _ _ (hasColumn_joint _)]
  have restored : (⟨predicted.row + (mv.minus predicted).row,
      predicted.column + (mv.minus predicted).column⟩ : MotionVector) = mv := by
    unfold minus
    dsimp only
    rw [add_sub_cancel, add_sub_cancel]
  dsimp only
  rw [restored]
  exact if_pos valid

end TileCoder.MotionVector
