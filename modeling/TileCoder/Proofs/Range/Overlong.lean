import TileCoder.Proofs.Range.Paired

/-!
# Payloads with more bits than a position counts

A position is a word, and a payload may have more bits than there are words. `Writer.unlikely` comes
to such payloads in few steps: it codes flags that are clear although hardly any is. Each of them uses up
seven bits at least, and the interval stays at the lower end of the whole (`interval_unlikely`), so that
each beginning of the payload lies in it (`contains_take`).
-/

namespace TileCoder.Range

/-! ## An unlikely flag -/

/-- The part of a clear flag begins where the range does, and is a small one. -/
theorem part_unlikely {range : Nat} (scaled : InScale range) :
    ∃ size, (Token.ofSymbol (flagCdf 32767) 0).part range = ⟨0, size⟩ ∧ 0 < size ∧ size < 512 := by
  have usable := usable_flagCdf (show 32767 < Cdf.top by decide)
  have inside : 0 < (flagCdf 32767).arity := by decide
  have low : lowerEnd (flagCdf 32767) range 0 = range / 256 * 511 / 2 + 4 := rfl
  unfold InScale at scaled
  rw [part_ofSymbol usable.1 range inside, upperEnd, low, Nat.sub_self]
  exact ⟨_, rfl, by omega, by omega⟩

theorem headroom_ge_of_lt {part : Nat} (positive : 0 < part) (small : part < 512) :
    7 ≤ headroom part := by
  have digits := (Nat.log2_lt (n := part) (k := 9) positive.ne').mpr small
  rw [headroom_eq positive.ne']
  omega

/-- What a clear flag makes of an interval at the lower end of the whole. -/
theorem Interval.narrow_unlikely {interval : Interval} (scaled : InScale interval.range)
    (low : interval.low = 0) :
    (interval.narrow (.ofSymbol (flagCdf 32767) 0)).low = 0 ∧
      interval.bits + 7 ≤ (interval.narrow (.ofSymbol (flagCdf 32767) 0)).bits := by
  obtain ⟨size, part, positive, small⟩ := part_unlikely scaled
  rw [narrow, part, low]
  exact ⟨Nat.zero_mul _, Nat.add_le_add_left (headroom_ge_of_lt positive small) _⟩

/-! ## Many of them -/

namespace Writer

/-- A writer of so many flags that are clear although hardly any is. -/
def unlikely : (flags : Nat) → Writer Payload
  | 0 => new
  | flags + 1 => (unlikely flags).flag 32767 false

/-- Whatever codes one such flag after another comes to this writer. -/
theorem coder_foldl_unlikely {state call : Type*} (coder : state → Writer Payload)
    {step : state → call → state} {clear : call} {start : state} (fresh : coder start = new)
    (codes : ∀ before, coder (step before clear) = (coder before).flag 32767 false) (flags : Nat) :
    coder ((List.replicate flags clear).foldl step start) = unlikely flags := by
  induction flags with
  | zero => exact fresh
  | succ flags ih =>
      rw [List.replicate_succ', List.foldl_append, List.foldl_cons, List.foldl_nil, codes, ih]
      rfl

theorem sound_unlikely (flags : Nat) : (unlikely flags).Sound := by
  induction flags with
  | zero => exact sound_new
  | succ flags ih =>
      exact ih.symbol (usable_flagCdf (by decide)).roomy (toNat_lt_arity_flagCdf 32767 false)

theorem interval_unlikely (flags : Nat) :
    (unlikely flags).interval.low = 0 ∧ 7 * flags ≤ (unlikely flags).interval.bits := by
  induction flags with
  | zero =>
      rw [unlikely, interval_new]
      exact ⟨rfl, Nat.le_refl 0⟩
  | succ flags ih =>
      obtain ⟨low, bits⟩ := ih
      have sound := sound_unlikely flags
      obtain ⟨low_next, bits_next⟩ := Interval.narrow_unlikely sound.scaled low
      have moved : (unlikely (flags + 1)).interval =
          (unlikely flags).interval.narrow (.ofSymbol (flagCdf 32767) 0) :=
        interval_symbol sound (usable_flagCdf (by decide)).roomy (toNat_lt_arity_flagCdf 32767 false)
      rw [moved]
      exact ⟨low_next, by omega⟩

theorem bits_unlikely (flags : Nat) : 7 * (flags : Int) < (unlikely flags).bits := by
  have bits := (interval_unlikely flags).2
  rw [(sound_unlikely flags).bits_eq]
  omega

theorem length_finish_unlikely (flags : Nat) : 7 * flags < 8 * (unlikely flags).finish.length := by
  have bits := bits_unlikely flags
  have length := length_finish_eq (sound_unlikely flags).count_ge
  omega

end Writer

/-! ## Beginnings of a payload -/

/-- The beginning of a payload says no more than the whole. -/
theorem payloadPoint_take_le (payload : List UInt8) (length : Nat) :
    payloadPoint (payload.take length) ≤ payloadPoint payload := by
  have value := payloadValue_append (payload.take length) (payload.drop length)
  have lengths : payload.length = (payload.take length).length + (payload.drop length).length := by
    rw [← List.length_append, List.take_append_drop]
  rw [List.take_append_drop] at value
  have rest : (0 : ℚ) ≤
      payloadValue (payload.drop length) * 256 ^ (payload.take length).length := by positivity
  unfold payloadPoint
  rw [value, lengths, pow_add, div_le_div_iff₀ (by positivity) (by positivity)]
  push_cast
  linarith only [rest]

theorem Interval.contains_take {interval : Interval} {payload : List UInt8} (low : interval.low = 0)
    (contains : interval.Contains (payloadPoint payload)) (length : Nat) :
    interval.Contains (payloadPoint (payload.take length)) := by
  have less := payloadPoint_take_le payload length
  have positive : 0 ≤ payloadPoint (payload.take length) := by
    unfold payloadPoint
    positivity
  constructor
  · rw [low]
    push_cast
    positivity
  · exact (mul_le_mul_of_nonneg_right less (by positivity)).trans_lt contains.2

end TileCoder.Range
