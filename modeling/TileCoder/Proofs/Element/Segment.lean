import Mathlib.Tactic
import TileCoder.Element.Segment
import TileCoder.Proofs.Element.Follows

/-!
# Segment numbers

`interleave` numbers the segments by their distance from a reference, without a gap
(`interleave_lt`), and `deinterleave` undoes it (`deinterleave_interleave`). So all three ways to
write a segment number are read back.
-/

namespace TileCoder.Segment

section Interleave

variable {value reference size : Int}

/-- Codes lie where the numbers do. -/
theorem interleave_lt (value_nonneg : 0 ≤ value) (value_lt : value < size)
    (reference_lt : reference < size) :
    0 ≤ interleave value reference size ∧ interleave value reference size < size := by
  unfold interleave
  dsimp only
  split_ifs <;> omega

/-- A number is found again from its code. -/
theorem deinterleave_interleave (value_nonneg : 0 ≤ value) (value_lt : value < size) :
    deinterleave (interleave value reference size) reference size = value := by
  unfold deinterleave interleave
  dsimp only
  split_ifs <;> omega

end Interleave

/-- The predicted segment is one of those in use. -/
theorem Site.reference_lt (site : Site) : site.reference < site.size := by
  unfold reference size
  omega

theorem restores_write (site : Site) (segment : Nat) :
    Restores (write site segment) (read site) segment := by
  unfold write read
  apply Restores.check
  rintro ⟨⟩ last
  apply Restores.check
  rintro ⟨⟩ inside
  apply Restores.check
  rintro ⟨⟩ context
  rw [last, context, Parse.liftM_ok_bind, Parse.liftM_ok_bind]
  rw [checkSymbol_eq_ok] at last inside
  have size_eq : site.size = (site.last + 1 : Nat) := rfl
  have alphabet : site.slot.table.symbols = limit := rfl
  have value_lt : (segment : Int) < site.size := by omega
  obtain ⟨code_nonneg, code_lt⟩ :=
    interleave_lt (Int.natCast_nonneg segment) value_lt site.reference_lt
  have undone : deinterleave _ site.reference site.size = segment :=
    deinterleave_interleave (Int.natCast_nonneg segment) value_lt
  apply (restores_symbol _).ending
  -- the reader refuses a number that is not in use, which a written segment never is
  · rw [Int.toNat_of_nonneg code_nonneg, undone]
    exact if_pos ⟨by omega, by omega⟩
  · omega

theorem restores_writePredicted (context : Nat) (predicted : Bool) :
    Restores (writePredicted context predicted) (readPredicted context) predicted := by
  unfold writePredicted readPredicted
  apply Restores.check
  rintro ⟨⟩ inside
  rw [inside, Parse.liftM_ok_bind]
  exact restores_flag _ predicted

theorem restores_writeAlone (segment : Nat) :
    Restores (writeAlone segment) readAlone segment := by
  unfold writeAlone readAlone
  apply Restores.check
  rintro ⟨⟩ inside
  exact restores_symbol (checkSymbol_eq_ok.mp inside)

end TileCoder.Segment
