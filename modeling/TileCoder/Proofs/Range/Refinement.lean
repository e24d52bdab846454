import TileCoder.Proofs.Range.BigEndian
import TileCoder.Proofs.Range.Interval
import TileCoder.Range.Writer

/-!
# The writer refines the interval coder

`Writer.interval` reads a writer of bytes as the interval it stands for: the entries that are out,
with all their unresolved overflow, and the low end below them make up one number. `Writer.Sound` is
the invariant, and coding a token does to the interval what the interval coder does
(`interval_put`), whether no, one or two entries leave the low end.

`finish` then rounds to a point of the interval (`finish_contains`), and its sweep loses no carry
(`sweepCarries_finish`).
-/

namespace TileCoder.Range.Writer

/-- The interval that a writer stands for. -/
def interval (writer : Writer Payload) : Interval :=
  { low := writer.out.low +
      bigEndian writer.out.pending.toList * 2 ^ (writer.count + 24).toNat
    range := writer.range
    bits := (8 * writer.out.pending.size + writer.count + 9).toNat }

/-- The invariant of a writer of bytes. -/
structure Sound (writer : Writer Payload) : Prop where
  scaled : InScale writer.range
  count_ge : -9 ≤ writer.count
  count_lt : writer.count < 0
  /-- Entries have at most one bit of overflow. -/
  entry_le : ∀ entry ∈ writer.out.pending.toList, entry ≤ 511
  /-- The range ends within what the low end and one bit of overflow can say. -/
  room : writer.out.low + writer.range ≤ 2 ^ (writer.count + 25).toNat
  within : writer.interval.low + writer.interval.range ≤ 2 ^ (15 + writer.interval.bits)

theorem sound_new : (new : Writer Payload).Sound where
  scaled := inScale_fullRange
  count_ge := Int.le_refl _
  count_lt := by decide
  entry_le := by simp [new, Output.empty]
  room := by decide
  within := by decide

theorem interval_new : (new : Writer Payload).interval = Interval.whole := rfl

/-- The range of a sound writer leaves room below the overflow. -/
theorem Sound.low_lt {writer : Writer Payload} (sound : writer.Sound) :
    writer.out.low < 2 ^ (writer.count + 25).toNat := by
  have room := sound.room
  have positive := sound.scaled.1
  omega

/-! ## One token -/

section Put

variable {writer : Writer Payload} {token : Token}

/-- The low end after a token, before anything leaves it. -/
def raised (writer : Writer Payload) (token : Token) : Nat :=
  writer.out.low + (token.part writer.range).offset

/-- The digits by which a writer is scaled up after a token. -/
def shift (writer : Writer Payload) (token : Token) : Nat :=
  headroom (token.part writer.range).size

/-- The range after a token. -/
def scaledRange (writer : Writer Payload) (token : Token) : Nat :=
  (token.part writer.range).size * 2 ^ writer.shift token

theorem put_none (few : writer.count + writer.shift token < 0) :
    writer.put token =
      ⟨writer.scaledRange token, writer.count + writer.shift token,
        ⟨writer.out.pending, writer.raised token * 2 ^ writer.shift token⟩⟩ := by
  show Payload.put writer token = _
  rw [Payload.put]
  exact if_pos few

theorem put_one (enough : 0 ≤ writer.count + writer.shift token)
    (few : writer.count + writer.shift token < 8) {width : Nat}
    (width_eq : width = writer.count + 16) :
    writer.put token =
      ⟨writer.scaledRange token, writer.count + writer.shift token - 8,
        ⟨writer.out.pending.push (writer.raised token / 2 ^ width),
          writer.raised token % 2 ^ width * 2 ^ writer.shift token⟩⟩ := by
  obtain rfl : width = (writer.count + 16).toNat := by omega
  show Payload.put writer token = _
  rw [Payload.put]
  exact (if_neg (by unfold shift at enough; omega)).trans (if_pos few)

theorem put_two (enough : 8 ≤ writer.count + writer.shift token) {width : Nat}
    (width_eq : width + 8 = writer.count + 16) :
    writer.put token =
      ⟨writer.scaledRange token, writer.count + writer.shift token - 16,
        ⟨(writer.out.pending.push (writer.raised token / 2 ^ (width + 8))).push
            (writer.raised token % 2 ^ (width + 8) / 2 ^ width),
          writer.raised token % 2 ^ (width + 8) % 2 ^ width * 2 ^ writer.shift token⟩⟩ := by
  obtain rfl : width = (writer.count + 16).toNat - 8 := by omega
  have exact8 : (writer.count + 16).toNat - 8 + 8 = (writer.count + 16).toNat := by omega
  rw [exact8]
  show Payload.put writer token = _
  rw [Payload.put]
  unfold shift at enough
  exact (if_neg (by omega)).trans (if_neg (by omega))

/-- How a token moves a sound writer, before the writer is scaled up. -/
theorem Sound.raised_add_le (sound : writer.Sound) (valid : token.Sound) :
    0 < (token.part writer.range).size ∧ writer.shift token ≤ 15 ∧
      writer.raised token + (token.part writer.range).size ≤ 2 ^ (writer.count + 25).toNat := by
  obtain ⟨positive, within⟩ := valid writer.range sound.scaled
  refine ⟨positive, headroom_le _ positive, ?_⟩
  have room := sound.room
  unfold raised
  omega

theorem Sound.inScale_scaledRange (sound : writer.Sound) (valid : token.Sound) :
    InScale (writer.scaledRange token) := by
  obtain ⟨positive, within⟩ := valid writer.range sound.scaled
  have := sound.scaled.2
  exact inScale_scaled positive (by omega)

/-- An entry that moves from a low end to the entries in front of it changes no number. -/
theorem mod_add_shiftOut (value width front : Nat) :
    value % 2 ^ width + (front * 256 + value / 2 ^ width) * 2 ^ width =
      value + front * 2 ^ (width + 8) := by
  have split := Nat.mod_add_div' value (2 ^ width)
  calc value % 2 ^ width + (front * 256 + value / 2 ^ width) * 2 ^ width
      = value % 2 ^ width + value / 2 ^ width * 2 ^ width + front * 2 ^ (width + 8) := by ring
    _ = value + front * 2 ^ (width + 8) := by rw [split]

theorem bigEndian_push (entries : Array Nat) (entry : Nat) :
    bigEndian (entries.push entry).toList = bigEndian entries.toList * 256 + entry := by
  simp [bigEndian_append]

/-- A token moves the writer's interval as the interval coder does. -/
theorem interval_put (sound : writer.Sound) (valid : token.Sound) :
    (writer.put token).interval = writer.interval.narrow token := by
  obtain ⟨-, short, -⟩ := sound.raised_add_le valid
  have low := sound.count_ge
  have high := sound.count_lt
  -- the offset goes into the low end; the entries in front of it only move up
  have narrowed : writer.interval.narrow token =
      ⟨(writer.raised token +
          bigEndian writer.out.pending.toList * 2 ^ (writer.count + 24).toNat) *
            2 ^ writer.shift token,
        writer.scaledRange token, writer.interval.bits + writer.shift token⟩ := by
    simp only [Interval.narrow, interval, raised, shift, scaledRange, Nat.add_right_comm]
  rw [narrowed]
  by_cases kept : writer.count + writer.shift token < 0
  · rw [put_none kept]
    simp only [interval, Interval.mk.injEq, true_and]
    constructor
    · rw [show (writer.count + writer.shift token + 24).toNat =
        (writer.count + 24).toNat + writer.shift token by omega, Nat.pow_add, Nat.add_mul,
        Nat.mul_assoc]
    · omega
  · obtain ⟨width, width_eq⟩ : ∃ width : Nat, (width : Int) = writer.count + 16 :=
      ⟨(writer.count + 16).toNat, by omega⟩
    -- each entry that leaves the low end is worth the same in front of it
    rw [show (writer.count + 24).toNat = width + 8 by omega, ← mod_add_shiftOut]
    by_cases single : writer.count + writer.shift token < 8
    · rw [put_one (by omega) single width_eq]
      simp only [interval, Interval.mk.injEq, true_and, bigEndian_push, Array.size_push]
      constructor
      · rw [show (writer.count + writer.shift token - 8 + 24).toNat =
          width + writer.shift token by omega]
        ring
      · omega
    · obtain ⟨rest, rfl⟩ : ∃ rest, width = rest + 8 := ⟨width - 8, by omega⟩
      rw [put_two (by omega) (by exact_mod_cast width_eq), ← mod_add_shiftOut _ rest]
      simp only [interval, Interval.mk.injEq, true_and, bigEndian_push, Array.size_push]
      constructor
      · rw [show (writer.count + writer.shift token - 16 + 24).toNat =
          rest + writer.shift token by omega]
        ring
      · omega

/-- What is left of a low end after an entry has gone leaves room for a whole range. -/
theorem mod_mul_add_le {value width shift range : Nat} (wide : 16 ≤ width + shift)
    (scaled : InScale range) :
    value % 2 ^ width * 2 ^ shift + range ≤ 2 ^ (width + shift + 1) := by
  have rest : value % 2 ^ width * 2 ^ shift ≤ 2 ^ width * 2 ^ shift :=
    Nat.mul_le_mul_right _ (Nat.mod_lt _ (by positivity)).le
  have large : 2 ^ 16 ≤ 2 ^ (width + shift) := Nat.pow_le_pow_right (by decide) wide
  have small := scaled.2
  rw [← Nat.pow_add] at rest
  rw [Nat.pow_succ]
  omega

/-- A number of nine digits before the last `width` ones fits an entry. -/
theorem div_le_entry {value width : Nat} (below : value < 2 ^ (width + 9)) :
    value / 2 ^ width ≤ 511 := by
  have : value < 2 ^ 9 * 2 ^ width := by rwa [← Nat.pow_add, Nat.add_comm]
  have := (Nat.div_lt_iff_lt_mul (by positivity)).mpr this
  omega

theorem entry_le_push {entries : Array Nat} {last : Nat}
    (entry_le : ∀ entry ∈ entries.toList, entry ≤ 511) (last_le : last ≤ 511) :
    ∀ entry ∈ (entries.push last).toList, entry ≤ 511 := by
  intro entry member
  rw [Array.toList_push, List.mem_append, List.mem_singleton] at member
  rcases member with member | rfl
  · exact entry_le entry member
  · exact last_le

/-- A writer is sound after entries have left the low end, however many they were. -/
theorem sound_of_spilled {range value width shift : Nat} {count : Int} {pending : Array Nat}
    (scaled : InScale range) (count_ge : -8 ≤ count) (count_lt : count < 0)
    (digits : (width + shift : Int) = count + 24)
    (entry_le : ∀ entry ∈ pending.toList, entry ≤ 511)
    (within : (interval ⟨range, count, pending, value % 2 ^ width * 2 ^ shift⟩).low + range ≤
      2 ^ (15 + (interval ⟨range, count, pending, value % 2 ^ width * 2 ^ shift⟩).bits)) :
    (⟨range, count, pending, value % 2 ^ width * 2 ^ shift⟩ : Writer Payload).Sound where
  scaled := scaled
  count_ge := by
    show -9 ≤ count
    omega
  count_lt := count_lt
  entry_le := entry_le
  room := by
    show value % 2 ^ width * 2 ^ shift + range ≤ 2 ^ (count + 25).toNat
    rw [show (count + 25).toNat = width + shift + 1 by omega]
    exact mod_mul_add_le (by omega) scaled
  within := within

/-- The invariant survives a token, whichever way its entries leave. -/
theorem Sound.put (sound : writer.Sound) (valid : token.Sound) : (writer.put token).Sound := by
  obtain ⟨positive, short, within⟩ := sound.raised_add_le valid
  have scaled := sound.inScale_scaledRange valid
  have low := sound.count_ge
  have high := sound.count_lt
  have inside := Interval.narrow_le valid sound.scaled sound.within
  rw [← interval_put sound valid] at inside
  by_cases kept : writer.count + writer.shift token < 0
  · rw [put_none kept] at inside ⊢
    have filled : -9 ≤ writer.count + writer.shift token := by omega
    refine ⟨scaled, filled, kept, sound.entry_le, ?_, inside⟩
    have exponent : (writer.count + writer.shift token + 25).toNat =
        (writer.count + 25).toNat + writer.shift token := by omega
    -- nothing leaves the low end, so that it is only scaled up with its room
    show writer.raised token * 2 ^ writer.shift token +
      (token.part writer.range).size * 2 ^ writer.shift token ≤ _
    rw [← Nat.add_mul, exponent, Nat.pow_add]
    exact Nat.mul_le_mul_right _ within
  · obtain ⟨width, width_eq⟩ : ∃ width : Nat, (width : Int) = writer.count + 16 :=
      ⟨(writer.count + 16).toNat, by omega⟩
    rw [show (writer.count + 25).toNat = width + 9 by omega] at within
    have first := entry_le_push sound.entry_le
      (div_le_entry (show writer.raised token < 2 ^ (width + 9) by omega))
    by_cases single : writer.count + writer.shift token < 8
    · rw [put_one (by omega) single width_eq] at inside ⊢
      exact sound_of_spilled scaled (by omega) (by omega) (by omega) first inside
    · obtain ⟨rest, rfl⟩ : ∃ rest, width = rest + 8 := ⟨width - 8, by omega⟩
      rw [put_two (by omega) (by exact_mod_cast width_eq)] at inside ⊢
      have below : writer.raised token % 2 ^ (rest + 8) < 2 ^ (rest + 9) :=
        lt_trans (Nat.mod_lt _ (by positivity)) (Nat.pow_lt_pow_right (by decide) (by omega))
      exact sound_of_spilled scaled (by omega) (by omega) (by omega)
        (entry_le_push first (div_le_entry below)) inside

end Put

/-! ## The last bytes -/

@[simp] theorem length_lastBytes (bytes width value : Nat) :
    (lastBytes bytes width value).length = bytes := by
  induction bytes generalizing width value with
  | zero => rfl
  | succ bytes ih => simp [lastBytes, ih]

/-- The last bytes say all of a number that ends in enough zeros. -/
theorem bigEndian_lastBytes {bytes width value : Nat} (wide : 8 * bytes ≤ width)
    (zeros : 2 ^ (width - 8 * bytes) ∣ value) :
    bigEndian (lastBytes (bytes + 1) width value) * 2 ^ (width - 8 * bytes) = value := by
  induction bytes generalizing width value with
  | zero =>
      have whole := Nat.div_mul_cancel zeros
      simpa [lastBytes] using whole
  | succ bytes ih =>
      have exponent : width - 8 * (bytes + 1) = width - 8 - 8 * bytes := by omega
      rw [exponent] at zeros ⊢
      have deeper : 2 ^ (width - 8 - 8 * bytes) ∣ value % 2 ^ width :=
        (Nat.dvd_mod_iff (pow_dvd_pow 2 (by omega))).mpr zeros
      have rest := ih (show 8 * bytes ≤ width - 8 by omega) deeper
      have weight : 256 ^ (bytes + 1) * 2 ^ (width - 8 - 8 * bytes) = 2 ^ width := by
        rw [pow_entries_mul]
        congr 1
        omega
      rw [lastBytes, bigEndian_cons, length_lastBytes, Nat.add_mul, rest, Nat.mul_assoc, weight]
      exact Nat.div_add_mod' _ _

/-- The point that a writer rounds its low end up to. -/
def roundedLow (writer : Writer Payload) : Nat :=
  (2 * ((writer.out.low + 16383) / 32768) + 1) * 16384

/-- The number of bytes that are still to be put out. -/
def lastCount (writer : Writer Payload) : Nat := ((writer.count + 17) / 8).toNat

/-- All entries of the payload, before their overflow is resolved. -/
def allEntries (writer : Writer Payload) : List Nat :=
  writer.out.pending.toList ++
    lastBytes writer.lastCount (writer.count + 16).toNat writer.roundedLow

theorem le_roundedLow (writer : Writer Payload) : writer.out.low ≤ writer.roundedLow := by
  unfold roundedLow
  omega

theorem roundedLow_lt (writer : Writer Payload) :
    writer.roundedLow < writer.out.low + 32768 := by
  unfold roundedLow
  omega

theorem length_allEntries (writer : Writer Payload) :
    writer.allEntries.length = writer.out.pending.size + writer.lastCount := by
  simp [allEntries]

section Finish

variable {writer : Writer Payload}

/-- Two bytes are needed where the count is at its upper end, and one otherwise. -/
theorem Sound.lastCount_eq (sound : writer.Sound) :
    writer.lastCount = if writer.count = -1 then 2 else 1 := by
  have low := sound.count_ge
  have high := sound.count_lt
  unfold lastCount
  split <;> omega

/-- The units of the last entry are a power of two: the digits of the interval behind it. -/
theorem Sound.lastUnit (sound : writer.Sound) :
    8 * writer.allEntries.length ≤ 15 + writer.interval.bits ∧
      15 + writer.interval.bits - 8 * writer.allEntries.length + 8 * writer.lastCount =
        (writer.count + 24).toNat := by
  have low := sound.count_ge
  have high := sound.count_lt
  rw [length_allEntries, sound.lastCount_eq]
  simp only [interval]
  split <;> omega

/-- The entries stand for the low end of the interval, rounded. -/
theorem Sound.bigEndian_allEntries (sound : writer.Sound) :
    bigEndian writer.allEntries * 2 ^ (15 + writer.interval.bits - 8 * writer.allEntries.length) =
      writer.roundedLow +
        bigEndian writer.out.pending.toList * 2 ^ (writer.count + 24).toNat := by
  have low := sound.count_ge
  have high := sound.count_lt
  obtain ⟨-, unit⟩ := sound.lastUnit
  generalize 15 + writer.interval.bits - 8 * writer.allEntries.length = digits at unit ⊢
  obtain ⟨more, count_eq⟩ : ∃ more, writer.lastCount = more + 1 := by
    rw [sound.lastCount_eq]
    split
    · exact ⟨1, rfl⟩
    · exact ⟨0, rfl⟩
  have digits_eq : digits = (writer.count + 16).toNat - 8 * more := by omega
  -- rounding leaves fourteen zeros, which are at least the digits behind the last byte
  have zeros : 2 ^ ((writer.count + 16).toNat - 8 * more) ∣ writer.roundedLow := by
    have short : (writer.count + 16).toNat - 8 * more ≤ 14 := by
      have := sound.lastCount_eq
      split at this <;> omega
    exact (pow_dvd_pow 2 short).trans (Dvd.intro_left _ rfl)
  have last := bigEndian_lastBytes (by omega) zeros
  have weight : 256 ^ writer.lastCount * 2 ^ digits = 2 ^ (writer.count + 24).toNat := by
    rw [pow_entries_mul, Nat.add_comm, unit]
  rw [allEntries, bigEndian_append, length_lastBytes, Nat.add_mul, Nat.mul_assoc, weight,
    Nat.add_comm, count_eq, digits_eq, last]

/-- The rounded low end is a point of the interval. -/
theorem Sound.allEntries_within (sound : writer.Sound) :
    writer.interval.low ≤
        bigEndian writer.allEntries *
          2 ^ (15 + writer.interval.bits - 8 * writer.allEntries.length) ∧
      bigEndian writer.allEntries *
          2 ^ (15 + writer.interval.bits - 8 * writer.allEntries.length) <
        writer.interval.low + writer.interval.range := by
  have above := writer.le_roundedLow
  have below := writer.roundedLow_lt
  have wide := sound.scaled.1
  rw [sound.bigEndian_allEntries]
  simp only [interval]
  omega

/-- A sweep changes no number: what leaves the bytes is the carry. -/
theorem sweepCarries_value (entries : List Nat) :
    (sweepCarries entries).1 * 256 ^ entries.length + payloadValue (sweepCarries entries).2 =
        bigEndian entries ∧
      (sweepCarries entries).2.length = entries.length := by
  induction entries with
  | nil => exact ⟨rfl, rfl⟩
  | cons entry rest ih =>
      obtain ⟨value, length⟩ := ih
      have unfolded : sweepCarries (entry :: rest) =
          (((sweepCarries rest).1 + entry) / 256,
            UInt8.ofNat ((sweepCarries rest).1 + entry) :: (sweepCarries rest).2) := rfl
      rw [unfolded]
      refine ⟨?_, by rw [List.length_cons, length, List.length_cons]⟩
      generalize (sweepCarries rest).1 = carry at value ⊢
      have byte : (UInt8.ofNat (carry + entry)).toNat = (carry + entry) % 256 := by simp
      have split := Nat.div_add_mod' (carry + entry) 256
      rw [payloadValue_cons, byte, length, bigEndian_cons, ← value, List.length_cons,
        Nat.pow_succ']
      calc (carry + entry) / 256 * (256 * 256 ^ rest.length) +
            ((carry + entry) % 256 * 256 ^ rest.length + payloadValue (sweepCarries rest).2)
          = ((carry + entry) / 256 * 256 + (carry + entry) % 256) * 256 ^ rest.length +
              payloadValue (sweepCarries rest).2 := by ring
        _ = entry * 256 ^ rest.length +
              (carry * 256 ^ rest.length + payloadValue (sweepCarries rest).2) := by
            rw [split]
            ring

theorem length_finish (writer : Writer Payload) :
    writer.finish.length = writer.allEntries.length := (sweepCarries_value _).2

/-- The payload has as many bytes as the bits take. -/
theorem length_finish_eq (pending : -9 ≤ writer.count) :
    (writer.finish.length : Int) = (writer.bits + 7) / 8 := by
  have put_out : Output.bits writer.out = writer.out.pending.size * 8 := rfl
  rw [length_finish, length_allEntries, lastCount, bits, put_out]
  omega

/-- The bits of a writer are those of its interval and the open one. -/
theorem Sound.bits_eq (sound : writer.Sound) : writer.bits = writer.interval.bits + 1 := by
  have low := sound.count_ge
  have put_out : Output.bits writer.out = writer.out.pending.size * 8 := rfl
  rw [bits, put_out, interval]
  dsimp only
  omega

/-- The payload has no byte more than its interval takes. -/
theorem Sound.length_finish_lt (sound : writer.Sound) :
    8 * writer.finish.length < writer.interval.bits + 9 := by
  have length := length_finish_eq sound.count_ge
  rw [sound.bits_eq] at length
  omega

/-- The sweep over all entries ends without a carry: the interval lies within the whole. -/
theorem Sound.sweepCarries_allEntries (sound : writer.Sound) :
    (sweepCarries writer.allEntries).1 = 0 := by
  obtain ⟨wide, -⟩ := sound.lastUnit
  have inside := sound.allEntries_within.2
  have within := sound.within
  have value := (sweepCarries_value writer.allEntries).1
  have weight : 256 ^ writer.allEntries.length *
      2 ^ (15 + writer.interval.bits - 8 * writer.allEntries.length) =
        2 ^ (15 + writer.interval.bits) := by
    rw [pow_entries_mul, Nat.add_sub_cancel' wide]
  have bound : bigEndian writer.allEntries < 256 ^ writer.allEntries.length := by
    rw [← weight] at within
    exact Nat.lt_of_mul_lt_mul_right (Nat.lt_of_lt_of_le inside within)
  -- with a carry the entries would come to the whole at least
  by_contra carry
  have := Nat.le_mul_of_pos_left (256 ^ writer.allEntries.length) (Nat.pos_of_ne_zero carry)
  omega

theorem Sound.payloadValue_finish (sound : writer.Sound) :
    payloadValue writer.finish = bigEndian writer.allEntries := by
  have value := (sweepCarries_value writer.allEntries).1
  rw [sound.sweepCarries_allEntries, Nat.zero_mul, Nat.zero_add] at value
  exact value

end Finish

/-! ## Runs -/

/-- A writer that has coded some symbols, each with its row. -/
def codeAll (symbols : List (Cdf × Nat)) : Writer Payload :=
  symbols.foldl (fun writer (cdf, value) => writer.symbol cdf value) new

/-- The interval that the interval coder comes to. -/
def idealAll (symbols : List (Cdf × Nat)) : Interval :=
  symbols.foldl (fun ideal (cdf, value) => ideal.narrow (.ofSymbol cdf value)) Interval.whole

/-- How a writer stands for an interval, in its own numbers. -/
structure Refines (writer : Writer Payload) (ideal : Interval) : Prop where
  range_eq : writer.range = ideal.range
  scaled : 32768 ≤ writer.range ∧ writer.range ≤ 65535
  count_mem : -9 ≤ writer.count ∧ writer.count ≤ -1
  bits_eq : (ideal.bits : Int) = 8 * writer.out.pending.size + writer.count + 9
  entry_le : ∀ entry ∈ writer.out.pending.toList, entry ≤ 511
  low_lt : writer.out.low < 2 ^ (writer.count + 25).toNat
  low_eq : ideal.low = writer.out.low +
    ∑ i ∈ Finset.range writer.out.pending.size,
      writer.out.pending.toList.getD i 0 * 256 ^ (writer.out.pending.size - 1 - i) *
        2 ^ (writer.count + 24).toNat

/-- The payload of a writer is a point of an interval, and its sweep leaves no carry. -/
structure FlushesInto (writer : Writer Payload) (ideal : Interval) : Prop where
  sweep : sweepCarries writer.allEntries = (0, writer.finish)
  units : 8 * writer.finish.length ≤ 15 + ideal.bits
  above : ideal.low ≤
    payloadValue writer.finish * 2 ^ (15 + ideal.bits - 8 * writer.finish.length)
  below : payloadValue writer.finish * 2 ^ (15 + ideal.bits - 8 * writer.finish.length) <
    ideal.low + ideal.range

theorem Sound.refines {writer : Writer Payload} (sound : writer.Sound) :
    Refines writer writer.interval where
  range_eq := rfl
  scaled := sound.scaled
  count_mem := ⟨sound.count_ge, by have := sound.count_lt; omega⟩
  bits_eq := by
    have := sound.count_ge
    simp only [interval]
    omega
  entry_le := sound.entry_le
  low_lt := sound.low_lt
  low_eq := by
    simp only [interval]
    rw [bigEndian_eq_sum, Finset.sum_mul]
    rfl

theorem Sound.flushesInto {writer : Writer Payload} (sound : writer.Sound) :
    FlushesInto writer writer.interval where
  sweep := Prod.ext sound.sweepCarries_allEntries rfl
  units := by
    rw [length_finish]
    exact sound.lastUnit.1
  above := by
    rw [length_finish, sound.payloadValue_finish]
    exact sound.allEntries_within.1
  below := by
    rw [length_finish, sound.payloadValue_finish]
    exact sound.allEntries_within.2

/-- Coding symbols keeps a writer sound, and narrows its interval by their tokens. -/
theorem Sound.foldl_symbol {writer : Writer Payload} (sound : writer.Sound)
    (symbols : List (Cdf × Nat)) (usable : ∀ p ∈ symbols, p.1.Usable ∧ p.2 < p.1.arity) :
    (symbols.foldl (fun writer (cdf, value) => writer.symbol cdf value) writer).Sound ∧
      (symbols.foldl (fun writer (cdf, value) => writer.symbol cdf value) writer).interval =
        symbols.foldl (fun ideal (cdf, value) => ideal.narrow (.ofSymbol cdf value))
          writer.interval := by
  induction symbols generalizing writer with
  | nil => exact ⟨sound, rfl⟩
  | cons p rest ih =>
      obtain ⟨row, inside⟩ := usable p List.mem_cons_self
      have valid := Token.Sound.ofSymbol row.roomy inside
      have tail := ih (sound.put valid) fun q member => usable q (List.mem_cons_of_mem _ member)
      rw [interval_put sound valid] at tail
      exact tail

/-- **The writer refines the interval coder.** Whatever symbols are coded, the writer's numbers
stand for the interval that the exact coder comes to, and the payload is a point of it. -/
theorem codeAll_refines_idealAll (symbols : List (Cdf × Nat))
    (codable : ∀ p ∈ symbols, p.1.Codable ∧ p.1.arity ≤ Cdf.maxSymbols ∧ p.2 < p.1.arity) :
    Refines (codeAll symbols) (idealAll symbols) ∧
      FlushesInto (codeAll symbols) (idealAll symbols) := by
  have usable : ∀ p ∈ symbols, p.1.Usable ∧ p.2 < p.1.arity := by
    intro p member
    obtain ⟨row, few, inside⟩ := codable p member
    exact ⟨⟨row, few⟩, inside⟩
  obtain ⟨sound, ideal⟩ := sound_new.foldl_symbol symbols usable
  have ideal : (codeAll symbols).interval = idealAll symbols := ideal
  rw [← ideal]
  exact ⟨Sound.refines sound, Sound.flushesInto sound⟩

/-- A run whose last entry overflows into the one before: the entries 99 and 272 make the bytes 100
and 16. -/
theorem codeAll_refines_overflow :
    let symbols := [([20000, 0, 0], 1), ([32767, 0, 5], 0), ([20000, 0, 0], 0)]
    (∀ p ∈ symbols, Cdf.Codable p.1 ∧ Cdf.arity p.1 ≤ Cdf.maxSymbols ∧ p.2 < Cdf.arity p.1) ∧
      (codeAll symbols).allEntries = [99, 272] ∧ (codeAll symbols).finish = [100, 16] ∧
      Refines (codeAll symbols) (idealAll symbols) ∧
      FlushesInto (codeAll symbols) (idealAll symbols) :=
  ⟨by decide, by decide, by decide, codeAll_refines_idealAll _ (by decide)⟩

end TileCoder.Range.Writer
