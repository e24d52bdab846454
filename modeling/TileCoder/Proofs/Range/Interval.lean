import TileCoder.Proofs.Range.Share

/-!
# The exact interval coder

An `Interval` is what a coder would keep if it had room for all digits: the lower end of its range
as a number without bound, the range, and the number of bits that both were scaled up by. Each token
narrows it to a part of itself (`contains_of_narrow`), so that a point in the last interval of a run
lies in every interval before.
-/

namespace TileCoder.Range

/-- A range with its lower end, in units of `2 ^ (15 + bits)` to the whole. -/
structure Interval where
  low : Nat
  range : Nat
  bits : Nat
  deriving DecidableEq, Repr

namespace Interval

/-- The interval of a coder that has coded nothing. -/
def whole : Interval := ⟨0, fullRange, 0⟩

/-- Narrows an interval to the part of a token, scaled up to a range again. -/
def narrow (interval : Interval) (token : Token) : Interval :=
  let part := token.part interval.range
  let shift := headroom part.size
  ⟨(interval.low + part.offset) * 2 ^ shift, part.size * 2 ^ shift, interval.bits + shift⟩

/-- Whether a point of the whole, as a fraction, lies in the interval. -/
def Contains (interval : Interval) (point : ℚ) : Prop :=
  interval.low ≤ point * 2 ^ (15 + interval.bits) ∧
    point * 2 ^ (15 + interval.bits) < interval.low + interval.range

section Narrow

variable {interval : Interval} {token : Token}

theorem bits_le_narrow (interval : Interval) (token : Token) :
    interval.bits ≤ (interval.narrow token).bits := Nat.le_add_right _ _

/-- No interval reaches beyond the whole. -/
theorem narrow_le (sound : token.Sound) (scaled : InScale interval.range)
    (within : interval.low + interval.range ≤ 2 ^ (15 + interval.bits)) :
    (interval.narrow token).low + (interval.narrow token).range ≤
      2 ^ (15 + (interval.narrow token).bits) := by
  obtain ⟨-, inside⟩ := sound interval.range scaled
  simp only [narrow]
  rw [← Nat.add_mul, ← Nat.add_assoc, Nat.pow_add]
  exact Nat.mul_le_mul_right _ (by omega)

/-- A point of the narrowed interval lies in the part of the token. -/
theorem part_of_narrow {point : ℚ} (inside : (interval.narrow token).Contains point) :
    interval.low + (token.part interval.range).offset ≤ point * 2 ^ (15 + interval.bits) ∧
      point * 2 ^ (15 + interval.bits) <
        interval.low + (token.part interval.range).offset +
          (token.part interval.range).size := by
  obtain ⟨above, below⟩ := inside
  simp only [narrow] at above below
  generalize token.part interval.range = part at *
  have scale : (0 : ℚ) < 2 ^ headroom part.size := by positivity
  rw [← Nat.add_assoc, pow_add (2 : ℚ) (15 + interval.bits), ← mul_assoc] at above below
  push_cast at above below
  rw [← add_mul] at below
  exact ⟨le_of_mul_le_mul_right above scale, lt_of_mul_lt_mul_right below scale.le⟩

theorem contains_of_narrow {point : ℚ} (sound : token.Sound) (scaled : InScale interval.range)
    (inside : (interval.narrow token).Contains point) : interval.Contains point := by
  obtain ⟨-, within⟩ := sound interval.range scaled
  obtain ⟨above, below⟩ := part_of_narrow inside
  have within : ((token.part interval.range).offset : ℚ) + (token.part interval.range).size ≤
      interval.range := by exact_mod_cast within
  have offset : (0 : ℚ) ≤ (token.part interval.range).offset := by positivity
  constructor <;> linarith

end Narrow

end Interval

end TileCoder.Range
