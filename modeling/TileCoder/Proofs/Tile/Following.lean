import TileCoder.Proofs.Tile.Truncation

/-!
# What follows a payload

A payload ends in the middle of a number: the digits of the interval that its last byte does not reach
(`Writer.openDigits`) are left to whatever follows. The writer rounds its low end up so that they are
zero, and zeros may always follow. Other bytes move the point up, by less than the first open digit is
worth, and what is read is what was coded as long as the point stays below the upper end of the range
(`Writer.Absorbs`). The rounding does not see to that: it may go up by nearly as much as the least range
is wide. `readsBack_followed_iff` says when there is room for all that can follow, and
`not_readsBack_followed` is a run without it.
-/

namespace TileCoder

open TileCoder.Range

namespace Range.Writer

/-- The number of digits of the interval behind the last byte. -/
def openDigits (writer : Writer Payload) : Nat := (writer.count + 24).toNat - 8 * writer.lastCount

/-- With these bytes behind it, the rounded low end is still within the range. -/
def Absorbs (writer : Writer Payload) (following : List UInt8) : Prop :=
  writer.roundedLow * 256 ^ following.length + payloadValue following * 2 ^ writer.openDigits <
    (writer.out.low + writer.range) * 256 ^ following.length

instance (writer : Writer Payload) (following : List UInt8) : Decidable (writer.Absorbs following) :=
  inferInstanceAs (Decidable (_ < _))

section Followed

variable {writer : Writer Payload}

theorem Sound.openDigits_eq (sound : writer.Sound) :
    15 + writer.interval.bits - 8 * writer.finish.length = writer.openDigits := by
  have last := sound.lastUnit.2
  rw [length_finish, openDigits]
  omega

theorem Sound.openDigits_le (sound : writer.Sound) : writer.openDigits ≤ 14 := by
  have high := sound.count_lt
  rw [openDigits, sound.lastCount_eq]
  split <;> omega

/-- The point of a payload that is followed by other bytes, in units of the interval. -/
theorem Sound.point_followed (sound : writer.Sound) (following : List UInt8) :
    payloadPoint (writer.finish ++ following) * 2 ^ (15 + writer.interval.bits) *
        256 ^ following.length =
      ((writer.roundedLow +
          bigEndian writer.out.pending.toList * 2 ^ (writer.count + 24).toNat) *
            256 ^ following.length + payloadValue following * 2 ^ writer.openDigits : Nat) := by
  have rounded := sound.bigEndian_allEntries
  have units := (Sound.flushesInto sound).units
  have weight := pow_entries_mul writer.finish.length writer.openDigits
  rw [← length_finish, ← sound.payloadValue_finish, sound.openDigits_eq] at rounded
  rw [← sound.openDigits_eq, Nat.add_sub_cancel' units, sound.openDigits_eq] at weight
  have weight : (2 : ℚ) ^ (15 + writer.interval.bits) =
      256 ^ writer.finish.length * 2 ^ writer.openDigits := by exact_mod_cast weight.symm
  have nonzero : (256 : ℚ) ^ writer.finish.length * 256 ^ following.length ≠ 0 := by positivity
  rw [← rounded, payloadPoint, payloadValue_append, List.length_append, pow_add, weight]
  push_cast
  field_simp

/-- Bytes that follow a payload leave it a point of its interval just if they are absorbed. -/
theorem Sound.contains_followed_iff (sound : writer.Sound) (following : List UInt8) :
    writer.interval.Contains (payloadPoint (writer.finish ++ following)) ↔
      writer.Absorbs following := by
  have point := sound.point_followed following
  have rounded := writer.le_roundedLow
  have positive : (0 : ℚ) < 256 ^ following.length := by positivity
  unfold Interval.Contains Absorbs
  rw [← mul_le_mul_iff_of_pos_right positive, ← mul_lt_mul_iff_of_pos_right positive, point]
  simp only [interval]
  norm_cast
  -- the entries in front of the low end are the same on both sides
  have above := Nat.mul_le_mul_right (256 ^ following.length) rounded
  simp only [Nat.add_mul]
  omega

theorem Sound.selected_followed_iff (sound : writer.Sound) (following : List UInt8) :
    writer.interval.Selected (writer.finish ++ following) ↔ writer.Absorbs following := by
  rw [← sound.contains_followed_iff]
  refine ⟨fun selected => selected.contains, fun contains => ⟨contains, ?_⟩⟩
  have long := sound.selected_finish.long
  rw [List.length_append]
  omega

/-- Zeros do not move the point. -/
theorem Sound.absorbs_zeros (sound : writer.Sound) (zeros : Nat) :
    writer.Absorbs (List.replicate zeros 0) := by
  have below := writer.roundedLow_lt
  have wide := sound.scaled.1
  rw [Absorbs, payloadValue_replicate_zero, Nat.zero_mul, Nat.add_zero]
  exact Nat.mul_lt_mul_of_pos_right (by omega) (by positivity)

/-- All that can follow is absorbed just if there is room for a whole unit of the last byte. -/
theorem Sound.absorbs_all_iff (sound : writer.Sound) :
    (∀ following, writer.Absorbs following) ↔
      writer.roundedLow + 2 ^ writer.openDigits ≤ writer.out.low + writer.range := by
  have positive : 0 < 2 ^ writer.openDigits := by positivity
  constructor
  · intro all
    -- two bytes come so close to a unit that no place is left between
    have most := all [255, 255]
    have small : 2 ^ writer.openDigits ≤ 2 ^ 14 := Nat.pow_le_pow_right (by decide) sound.openDigits_le
    rw [Absorbs, show payloadValue [255, 255] = 65535 by rfl] at most
    simp only [List.length_cons, List.length_nil] at most
    omega
  · intro room following
    have less := Nat.mul_lt_mul_of_pos_right (payloadValue_lt following) positive
    have fits := Nat.mul_le_mul_right (256 ^ following.length) room
    rw [Nat.add_mul, Nat.mul_comm (2 ^ writer.openDigits)] at fits
    exact (Nat.add_lt_add_left less _).trans_le fits

end Followed

end Range.Writer

/-! ## Reading on -/

section Runs

variable {rows : List Cdf} {calls : List Call}

/-- **What may follow a payload.** Whatever was coded and whatever follows the payload, all is read back
just if the point stays within the last range; otherwise the reader comes upon a value that was not
coded, or upon the end. Zeros may always follow, and all bytes may just if the range has room for a whole
unit of the last byte. -/
theorem readsBack_followed_iff (tables : Tables) (adapts : Bool)
    (usable : ∀ cdf ∈ rows, cdf.Codable ∧ cdf.arity ≤ Cdf.maxSymbols)
    (admits : ∀ call ∈ calls, call.query.Admits rows call.value) :
    let start := Session.write rows tables adapts
    let coder := (calls.foldl Call.write start).tile.coder
    let reader (following : List UInt8) :=
      Session.read rows (coder.finish ++ following) tables adapts
    (∀ following, ReadsBack calls start (reader following) ↔ coder.Absorbs following) ∧
      (∀ following, ¬coder.Absorbs following → Misreads calls (reader following)) ∧
      (∀ zeros, ReadsBack calls start (reader (List.replicate zeros 0))) ∧
      ((∀ following, ReadsBack calls start (reader following)) ↔
        coder.roundedLow + 2 ^ coder.openDigits ≤ coder.out.low + coder.range) := by
  intro start coder reader
  have usable := usableRows_of_forall usable
  have sound : start.Sound := ⟨Writer.sound_new, usable⟩
  have last : coder.Sound := (sound.run admits).coder
  have beside (following : List UInt8) :
      start.Beside (coder.finish ++ following) (reader following) :=
    ⟨Paired.new _, rfl, rfl, usable⟩
  have astray (following : List UInt8) (beyond : ¬coder.Absorbs following) :
      Misreads calls (reader following) := by
    refine ((beside following).misreads_or_readsBack admits).resolve_right ?_
    rintro ⟨-, contains, -⟩
    exact beyond ((last.contains_followed_iff following).mp contains)
  have readsBack_iff (following : List UInt8) :
      ReadsBack calls start (reader following) ↔ coder.Absorbs following := by
    constructor
    · intro readsBack
      by_contra beyond
      exact (astray following beyond).not_readsBack readsBack
    · intro absorbs
      exact (beside following).readsBack admits ((last.selected_followed_iff following).mpr absorbs)
  refine ⟨readsBack_iff, astray, ?_, ?_⟩
  · intro zeros
    exact (readsBack_iff _).mpr (last.absorbs_zeros zeros)
  · rw [← last.absorbs_all_iff]
    exact forall_congr' readsBack_iff

/-- A run that leaves room for whatever follows, as for two bytes of ones. -/
theorem readsBack_followed_iff_interleaved :
    let rows : List Cdf := [[20000, 9000, 0, 0]]
    let calls : List Call :=
      [⟨.owned 0, 2⟩, ⟨.flag 12345, true⟩, ⟨.literal 5, 19⟩, ⟨.owned 0, 1⟩,
        ⟨.symbol [32767, 0, 32], 0⟩, ⟨.owned 0, 2⟩]
    let start := Session.write rows .initial true
    let coder := (calls.foldl Call.write start).tile.coder
    (∀ cdf ∈ rows, Cdf.Codable cdf ∧ Cdf.arity cdf ≤ Cdf.maxSymbols) ∧
      (∀ call ∈ calls, call.query.Admits rows call.value) ∧
      coder.finish = [245, 162, 212] ∧
      ReadsBack calls start (.read rows (coder.finish ++ [255, 255]) .initial true) := by
  intro rows calls start coder
  have usable : ∀ cdf ∈ rows, Cdf.Codable cdf ∧ Cdf.arity cdf ≤ Cdf.maxSymbols := by decide
  have admits : ∀ call ∈ calls, call.query.Admits rows call.value := by decide
  have room : coder.roundedLow + 2 ^ coder.openDigits ≤ coder.out.low + coder.range := by decide
  obtain ⟨-, -, -, all⟩ := readsBack_followed_iff .initial true usable admits
  exact ⟨usable, admits, by decide, all.mpr room [255, 255]⟩

/-- **Not everything may follow a payload.** Two flags make the one byte 127. With a byte of ones behind
it, the first flag is read as set, which it was not. -/
theorem not_readsBack_followed :
    let calls : List Call := [⟨.flag 16384, false⟩, ⟨.flag 512, true⟩]
    let start := Session.write [] .initial true
    let coder := (calls.foldl Call.write start).tile.coder
    (∀ call ∈ calls, call.query.Admits [] call.value) ∧ coder.finish = [127] ∧
      ((Query.flag 16384).read (.read [] [127, 255] .initial true)).1 = .ok true ∧
      ¬ReadsBack calls start (.read [] (coder.finish ++ [255]) .initial true) := by
  intro calls start coder
  have payload : coder.finish = [127] := by decide
  have first : ((Query.flag 16384).read (.read [] [127, 255] .initial true)).1 = .ok true := by
    decide
  refine ⟨by decide, payload, first, ?_⟩
  rw [payload]
  rintro ⟨value, -, -⟩
  have value : ((Query.flag 16384).read (.read [] [127, 255] .initial true)).1 = .ok false := value
  rw [first] at value
  cases value

end Runs

end TileCoder
