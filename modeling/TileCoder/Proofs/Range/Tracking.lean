import TileCoder.Proofs.Range.Refinement
import TileCoder.Proofs.Range.Window

/-!
# The reader tracks the interval coder

A payload selects an interval if its point lies there and it has all the bits that the interval was
scaled up by. A writer's payload selects the writer's interval (`Sound.selected_finish`), hence all
intervals on the way to it (`selected_of_narrow`).

`Reader.Tracks` says that a reader is where the interval coder is: same range, same number of bits,
and a window that holds the distance of the payload from the upper end. If the payload selects the
interval after one more symbol, the reader reads that symbol and tracks the interval coder on
(`Tracks.symbol`). Whatever the payload, a reader that does not come upon its end reads a symbol and
tracks the interval coder on (`Tracks.symbol_or_truncated`).

The end of a payload is found by the position, which is a word. A payload of `endless` bytes has as many
bits as there are words, so that no position is behind its end: it is as good as one that goes on. Of
one that is two bytes shorter, or more, the payload that was read so far always has all the bits.
-/

namespace TileCoder.Range

/-- The point of the whole that a payload says. -/
def payloadPoint (payload : List UInt8) : ℚ := payloadValue payload / 256 ^ payload.length

/-- The least length of a payload whose end no position is behind. -/
def endless : Nat := 2 ^ 29

/-- A payload selects an interval: its point lies there, and it is as long as that takes, or no reader
comes upon its end. -/
structure Interval.Selected (interval : Interval) (payload : List UInt8) : Prop where
  contains : interval.Contains (payloadPoint payload)
  long : interval.bits + 1 ≤ 8 * payload.length ∨ endless ≤ payload.length

/-- The end of a payload is still ahead, and near enough that the position cannot start over before a
reader comes upon it. -/
structure Interval.Ahead (interval : Interval) (payload : List UInt8) : Prop where
  measured : payload.length + 1 < endless
  bits_le : interval.bits ≤ 8 * payload.length

theorem Interval.Selected.ahead {interval : Interval} {payload : List UInt8}
    (selected : interval.Selected payload) (measured : payload.length + 1 < endless) :
    interval.Ahead payload := by
  refine ⟨measured, ?_⟩
  have := selected.long
  omega

/-- A symbol takes no more bits than its smallest part. -/
theorem Interval.bits_narrow_le {interval : Interval} {cdf : Cdf} {symbol : Nat}
    (roomy : cdf.Roomy) (scaled : InScale interval.range) (inside : symbol < cdf.arity) :
    (interval.narrow (.ofSymbol cdf symbol)).bits ≤ interval.bits + 13 := by
  have ends := lowerEnd_add_le_upperEnd roomy scaled inside
  refine Nat.add_le_add_left (headroom_le_of_minPart ?_) _
  rw [part_ofSymbol roomy.1 interval.range inside]
  dsimp only
  omega

theorem Interval.selected_of_narrow {interval : Interval} {token : Token} {payload : List UInt8}
    (valid : token.Sound) (scaled : InScale interval.range)
    (selected : (interval.narrow token).Selected payload) : interval.Selected payload where
  contains := contains_of_narrow valid scaled selected.contains
  long := by
    have := interval.bits_le_narrow token
    have := selected.long
    omega

/-- The payload of a writer selects the writer's interval. -/
theorem Writer.Sound.selected_finish {writer : Writer Payload} (sound : writer.Sound) :
    writer.interval.Selected writer.finish where
  contains := by
    have flushed := Sound.flushesInto sound
    have weight : (2 : ℚ) ^ (15 + writer.interval.bits) = 256 ^ writer.finish.length *
        2 ^ (15 + writer.interval.bits - 8 * writer.finish.length) := by
      have digits := pow_entries_mul writer.finish.length
        (15 + writer.interval.bits - 8 * writer.finish.length)
      rw [Nat.add_sub_cancel' flushed.units] at digits
      exact_mod_cast digits.symm
    have point : payloadPoint writer.finish * 2 ^ (15 + writer.interval.bits) =
        (payloadValue writer.finish *
          2 ^ (15 + writer.interval.bits - 8 * writer.finish.length) : Nat) := by
      have : (256 : ℚ) ^ writer.finish.length ≠ 0 := by positivity
      rw [payloadPoint, weight, ← mul_assoc, div_mul_cancel₀ _ this]
      push_cast
      rfl
    unfold Interval.Contains
    rw [point]
    exact ⟨by exact_mod_cast flushed.above, by exact_mod_cast flushed.below⟩
  long := by
    left
    have low := sound.count_ge
    have high := sound.count_lt
    rw [length_finish, length_allEntries, sound.lastCount_eq]
    simp only [interval]
    split <;> omega

namespace Reader

/-- A reader of a payload is where the interval coder is. -/
structure Tracks (reader : Reader) (payload : List UInt8) (ideal : Interval) : Prop where
  sound : reader.Sound
  range_eq : reader.range = ideal.range
  bits_eq : reader.bits = ideal.bits + 1
  size_eq : reader.size = payload.length
  distance_eq : reader.distance =
    (ideal.low + ideal.range - payloadPoint payload * 2 ^ (15 + ideal.bits)) * 65536

theorem tracks_ofBytes (payload : List UInt8) :
    (ofBytes payload).Tracks payload Interval.whole where
  sound := sound_ofBytes payload
  range_eq := range_refill _
  bits_eq := bits_refill _
  size_eq := size_refill _
  distance_eq := by
    rw [distance_ofBytes]
    simp [Interval.whole, payloadPoint, fullRange]

section Tracks

variable {reader : Reader} {payload : List UInt8} {ideal : Interval} {cdf : Cdf}

/-- The point lies between the ends of the symbol that narrows the interval around it. -/
theorem Tracks.between (tracks : reader.Tracks payload ideal) (roomy : cdf.Roomy) {symbol : Nat}
    (inside : symbol < cdf.arity)
    (contains : (ideal.narrow (.ofSymbol cdf symbol)).Contains (payloadPoint payload)) :
    lowerEnd cdf reader.range symbol ≤ reader.window / 65536 ∧
      reader.window / 65536 < upperEnd cdf reader.range symbol := by
  have scaled := tracks.sound.scaled
  have ends := lowerEnd_add_le_upperEnd roomy scaled inside
  have within := upperEnd_le roomy scaled inside
  obtain ⟨above, below⟩ := Interval.part_of_narrow contains
  rw [← tracks.range_eq, part_ofSymbol roomy.1 reader.range inside] at above below
  dsimp only at above below
  rw [Nat.cast_sub within] at above below
  rw [Nat.cast_sub (show lowerEnd cdf reader.range symbol ≤ upperEnd cdf reader.range symbol by
    omega)] at below
  rw [tracks.sound.le_point_iff, ← Nat.not_le, tracks.sound.le_point_iff, tracks.distance_eq,
    ← tracks.range_eq]
  constructor <;> linarith

/-- The point of the payload lies in the interval that the reader has come to. -/
theorem Tracks.contains (tracks : reader.Tracks payload ideal) :
    ideal.Contains (payloadPoint payload) := by
  have above := (tracks.sound.le_point_iff 0).mp (Nat.zero_le _)
  have below : (reader.window : ℚ) + 1 ≤ ideal.range * 65536 := by
    rw [← tracks.range_eq]
    exact_mod_cast tracks.sound.window_lt
  have behind := unread_nonneg reader.rest reader.count
  have whole := tracks.distance_eq
  rw [whole] at above
  rw [distance] at whole
  constructor <;> push_cast at above <;> linarith

/-- A reader that goes on with the symbol around its point tracks the interval coder on. -/
theorem Tracks.enter (tracks : reader.Tracks payload ideal) (roomy : cdf.Roomy) {symbol : Nat}
    (inside : symbol < cdf.arity)
    (reached : lowerEnd cdf reader.range symbol ≤ reader.window / 65536)
    (below : reader.window / 65536 < upperEnd cdf reader.range symbol) :
    (reader.enter (reader.window - lowerEnd cdf reader.range symbol * 65536)
      (upperEnd cdf reader.range symbol - lowerEnd cdf reader.range symbol)).Tracks payload
        (ideal.narrow (.ofSymbol cdf symbol)) := by
  have scaled := tracks.sound.scaled
  have entry := tracks.sound.entry_between roomy inside reached below
  obtain ⟨sound, range, bits, size, distance⟩ := enter_spec entry
  have ends := lowerEnd_add_le_upperEnd roomy scaled inside
  have within := upperEnd_le roomy scaled inside
  have lower : lowerEnd cdf reader.range symbol * 65536 ≤ reader.window := by omega
  generalize reader.enter _ _ = next at sound range bits size distance ⊢
  have narrowed : ideal.narrow (.ofSymbol cdf symbol) =
      ⟨(ideal.low + (reader.range - upperEnd cdf reader.range symbol)) *
          2 ^ headroom (upperEnd cdf reader.range symbol - lowerEnd cdf reader.range symbol),
        (upperEnd cdf reader.range symbol - lowerEnd cdf reader.range symbol) *
          2 ^ headroom (upperEnd cdf reader.range symbol - lowerEnd cdf reader.range symbol),
        ideal.bits +
          headroom (upperEnd cdf reader.range symbol - lowerEnd cdf reader.range symbol)⟩ := by
    rw [Interval.narrow, ← tracks.range_eq, part_ofSymbol roomy.1 reader.range inside]
  rw [narrowed]
  refine ⟨sound, range, ?_, size.trans tracks.size_eq, ?_⟩
  · rw [bits, tracks.bits_eq]
    push_cast
    ring
  -- the part's upper end is `lowerEnd` below the range's, and so much closer to the payload
  · have whole := tracks.distance_eq
    rw [Reader.distance] at whole
    rw [distance, Nat.cast_sub lower, ← add_assoc 15, pow_add]
    push_cast [within, ends]
    rw [Nat.cast_sub (show lowerEnd cdf reader.range symbol ≤ upperEnd cdf reader.range symbol by
      omega), show (reader.window : ℚ) - lowerEnd cdf reader.range symbol * 65536 + 1 -
        unread reader.rest reader.count = reader.window + 1 - unread reader.rest reader.count -
          lowerEnd cdf reader.range symbol * 65536 by ring, whole, tracks.range_eq]
    ring

/-- A reader has not run past the end of a payload that has all the bits of the interval, nor of one
that no position is behind. -/
theorem Tracks.not_exhausted (tracks : reader.Tracks payload ideal)
    (long : ideal.bits + 1 ≤ 8 * payload.length ∨ endless ≤ payload.length) :
    reader.exhausted = false := by
  have here := tracks.bits_eq
  have few := word_le (n := reader.bits) (by omega)
  have word := word_lt reader.bits
  rw [exhausted, decide_eq_false_iff_not, tell, tracks.size_eq]
  unfold endless at long
  unfold wordSize at word
  omega

/-- A reader that has not run past the end is at an interval that the payload selects, if the end was
ahead not long before. -/
theorem Tracks.selected_of_not_exhausted (tracks : reader.Tracks payload ideal) {earlier : Interval}
    (ahead : earlier.Ahead payload) (soon : ideal.bits ≤ earlier.bits + 13)
    (within : reader.exhausted = false) : ideal.Selected payload := by
  refine ⟨tracks.contains, .inl ?_⟩
  obtain ⟨measured, before⟩ := ahead
  unfold endless at measured
  have here := tracks.bits_eq
  have whole := word_of_fits (n := reader.bits) (by omega) (by unfold wordSize; omega)
  rw [exhausted, decide_eq_false_iff_not, tell, tracks.size_eq] at within
  omega

/-- A reader reads the symbol that the payload selects, and tracks the interval coder on. -/
theorem Tracks.symbol (tracks : reader.Tracks payload ideal) (roomy : cdf.Roomy) {symbol : Nat}
    (inside : symbol < cdf.arity)
    (selected : (ideal.narrow (.ofSymbol cdf symbol)).Selected payload) :
    ∃ next, reader.symbol cdf = (.ok symbol, next) ∧
      next.Tracks payload (ideal.narrow (.ofSymbol cdf symbol)) := by
  obtain ⟨reached, below⟩ := tracks.between roomy inside selected.contains
  have next := tracks.enter roomy inside reached below
  have more := next.not_exhausted selected.long
  rw [symbol_eq tracks.sound.scaled roomy inside reached below, deliver,
    if_neg (Bool.eq_false_iff.mp more)]
  exact ⟨_, rfl, next⟩

/-- A reader reads some symbol and tracks the interval coder on, unless it comes upon the end; and the
payload selects the interval after the symbol if its end was ahead. -/
theorem Tracks.symbol_or_truncated (tracks : reader.Tracks payload ideal) (roomy : cdf.Roomy) :
    (∃ next, reader.symbol cdf = (.error .truncatedStream, next)) ∨
      ∃ symbol next, symbol < cdf.arity ∧ reader.symbol cdf = (.ok symbol, next) ∧
        next.Tracks payload (ideal.narrow (.ofSymbol cdf symbol)) ∧
        (ideal.Ahead payload → (ideal.narrow (.ofSymbol cdf symbol)).Selected payload) := by
  obtain ⟨symbol, inside, reached, below⟩ := exists_between roomy.1 tracks.sound.point_lt
  have next := tracks.enter roomy inside reached below
  rw [symbol_eq tracks.sound.scaled roomy inside reached below, deliver]
  split
  · exact .inl ⟨_, rfl⟩
  next more =>
    have scaled : InScale ideal.range := tracks.range_eq ▸ tracks.sound.scaled
    have soon := Interval.bits_narrow_le roomy scaled inside
    refine .inr ⟨symbol, _, inside, rfl, next, ?_⟩
    intro ahead
    exact next.selected_of_not_exhausted ahead soon (Bool.eq_false_iff.mpr more)

/-- A flag is read as a symbol of its row. -/
theorem Sound.flag_eq (sound : reader.Sound) {value : Nat} (below : value < Cdf.top) :
    reader.flag value =
      ((reader.symbol (flagCdf value)).1.map fun symbol => decide (symbol ≠ 0),
        (reader.symbol (flagCdf value)).2) := by
  have roomy := (usable_flagCdf below).roomy
  -- a flag compares with the one boundary in its row
  have part_eq : scale reader.range value + minPart = lowerEnd (flagCdf value) reader.range 0 := by
    simp [lowerEnd, flagCdf]
  have last_eq : lowerEnd (flagCdf value) reader.range 1 = 0 := lowerEnd_last roomy.1 _
  have point := sound.point_lt
  unfold flag
  rw [part_eq]
  dsimp only
  split
  next reached =>
    rw [symbol_eq sound.scaled roomy (toNat_lt_arity_flagCdf value false) (by simp; omega) point,
      Bool.toNat_false, upperEnd]
    unfold deliver
    split <;> rfl
  next passed =>
    rw [symbol_eq sound.scaled roomy (toNat_lt_arity_flagCdf value true) (by simp; omega)
      (by rw [Bool.toNat_true, upperEnd]; omega), Bool.toNat_true, last_eq, upperEnd]
    unfold deliver
    simp only [Nat.zero_mul, Nat.sub_zero]
    split <;> rfl

end Tracks

end Reader

end TileCoder.Range
