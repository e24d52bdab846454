import Mathlib.Tactic
import TileCoder.Element.Delta
import TileCoder.Proofs.Element.Follows

/-!
# Changes of the quantizer and of the loop filters

A change within the limit is read back from its symbol, the digits behind it and its sign.
-/

namespace TileCoder.Delta

/-- The digits of a magnitude that has no symbol of its own fit their fields. -/
theorem tail_fits {magnitude : Nat} (large : escape ≤ magnitude) (within : magnitude ≤ limit) :
    1 ≤ (magnitude - 1).log2 ∧ (magnitude - 1).log2 - 1 < 2 ^ 3 ∧
      2 ^ (magnitude - 1).log2 + 1 ≤ magnitude ∧
      magnitude - 2 ^ (magnitude - 1).log2 - 1 < 2 ^ (magnitude - 1).log2 := by
  unfold escape at large
  unfold limit at within
  have nonzero : magnitude - 1 ≠ 0 := by omega
  have low := Nat.log2_self_le nonzero
  have high := Nat.lt_log2_self (n := magnitude - 1)
  have few : (magnitude - 1).log2 < 9 := (Nat.log2_lt nonzero).mpr (by omega)
  have one_le : 1 ≤ (magnitude - 1).log2 := (Nat.le_log2 nonzero).mpr (by omega)
  rw [Nat.pow_succ] at high
  exact ⟨one_le, by omega, by omega, by omega⟩

theorem restores_sign (value : Int) :
    Restores (if 0 < value.natAbs then Emit.one (.bit (decide (value < 0))) else pure ())
      (if value.natAbs = 0 then pure 0
        else do
          let negative ← (Code.bit : Parse Bool)
          pure (if negative then -(value.natAbs : Int) else value.natAbs))
      value := by
  by_cases zero : value.natAbs = 0
  · rw [if_pos zero, if_neg (by omega), Int.natAbs_eq_zero.mp zero]
    exact restores_pure () (0 : Int)
  · rw [if_neg zero, if_pos (by omega)]
    apply (restores_bit _).ending
    congr 1
    by_cases negative : value < 0
    · simp only [negative, decide_true, if_true]
      omega
    · simp only [negative, decide_false, Bool.false_eq_true, if_false]
      omega

theorem restores_write {slot : Slot} (alphabet : escape < slot.table.symbols) {value : Int}
    (within : value.natAbs ≤ limit) : Restores (write slot value) (read slot) value := by
  unfold write read
  apply (restores_symbol (Nat.lt_of_le_of_lt (Nat.min_le_right _ _) alphabet)).bind
  intro _ _
  unfold writeTail readMagnitude
  by_cases large : escape ≤ value.natAbs
  · obtain ⟨one_le, width_fits, above, rest_fits⟩ := tail_fits large within
    rw [Nat.min_eq_right large, if_pos large, if_neg (Nat.lt_irrefl _), Parse.bind_bind]
    apply (restores_literal width_fits).bind
    intro _ _
    rw [Nat.sub_add_cancel one_le, Parse.bind_bind]
    apply (restores_literal rest_fits).bind
    intro _ _
    rw [Parse.pure_bind, show value.natAbs - 2 ^ (value.natAbs - 1).log2 - 1 +
      2 ^ (value.natAbs - 1).log2 + 1 = value.natAbs by omega]
    exact restores_sign value
  · have small : value.natAbs < escape := Nat.lt_of_not_le large
    rw [Nat.min_eq_left small.le, if_neg large, if_pos small, Parse.pure_bind]
    exact restores_sign value

theorem restores_writeQuantizer (value : Int) :
    Restores (writeQuantizer value) readQuantizer value := by
  unfold writeQuantizer readQuantizer
  apply Restores.unless
  intro within
  exact restores_write (by decide) (Nat.le_of_not_lt within)

theorem escape_lt_symbols (each : Bool) (i : Nat) :
    escape < (filterSlot each i).table.symbols := by
  cases each <;> exact (show 3 < 4 by decide)

theorem restores_writeEach (each : Bool) (values : List Int) (i : Nat)
    (within : ∀ value ∈ values, value.natAbs ≤ limit) :
    Restores (writeEach each i values) (readEach each values.length i) values := by
  induction values generalizing i with
  | nil => exact restores_pure () []
  | cons value rest ih =>
      obtain ⟨here, later⟩ := List.forall_mem_cons.mp within
      rw [writeEach, List.length_cons, readEach]
      apply (restores_write (escape_lt_symbols each i) here).bind
      intro _ _
      exact (ih (i + 1) later).ending rfl

theorem restores_writeFilters (each : Bool) (count : Nat) (values : List Int) :
    Restores (writeFilters each count values) (readFilters each count) values := by
  unfold writeFilters readFilters
  apply Restores.unless
  intro accepted
  obtain ⟨few, length⟩ := not_or.mp accepted
  apply Restores.unless
  intro within
  rw [if_neg few, ← not_not.mp length]
  apply restores_writeEach
  intro value member
  simp only [List.any_eq_true, decide_eq_true_eq, not_exists, not_and] at within
  exact Nat.le_of_not_lt (within value member)

end TileCoder.Delta
