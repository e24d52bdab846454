import TileCoder.Proofs.Range.BigEndian
import TileCoder.Proofs.Range.Share
import TileCoder.Range.Reader

/-!
# The reader's window

A reader's window says how far the payload is below the upper end of the range, as far as it is
loaded. `Reader.distance` is that distance with the bytes that are not loaded yet taken into
account: loading changes nothing about it (`distance_refill`), and going on with a part only
scales it (`enter_spec`).

The unloaded bytes are finer than any boundary between symbols, so that comparing the loaded point
with a boundary says how the payload itself compares (`Sound.le_point_iff`). `symbol_eq`
puts this together: the symbol read is the one whose ends the point lies between, and one such
symbol always exists (`exists_between`).
-/

namespace TileCoder.Range.Reader

/-! ## Loading -/

/-- What the bytes that are not loaded contribute below a window with `count` loaded bits. -/
def unread (rest : List UInt8) (count : Int) : ℚ :=
  payloadValue rest * (2 : ℚ) ^ (16 - count - 8 * rest.length)

/-- The distance of the payload from the upper end of the range, in units of `1 / 65536`. -/
def distance (reader : Reader) : ℚ := reader.window + 1 - unread reader.rest reader.count

/-- Below the loaded bits a window consists of ones, as long as there are bytes to load. -/
def Aligned (rest : List UInt8) (window : Nat) (count : Int) : Prop :=
  rest ≠ [] → count ≤ 16 ∧ 2 ^ (16 - count).toNat ∣ window + 1

/-- Every byte moves the exponent of its weight by eight. -/
theorem weight_digits (length : Nat) (exponent : ℤ) :
    (256 : ℚ) ^ length * (2 : ℚ) ^ (exponent - 8 * length) = 2 ^ exponent := by
  rw [show (256 : ℚ) = 2 ^ (8 : ℤ) by norm_num, ← zpow_natCast, ← zpow_mul,
    ← zpow_add₀ two_ne_zero]
  congr 1
  ring

@[simp] theorem unread_nil (count : Int) : unread [] count = 0 := by
  simp [unread, payloadValue]

theorem unread_cons (byte : UInt8) (rest : List UInt8) (count : Int) :
    unread (byte :: rest) count =
      byte.toNat * (2 : ℚ) ^ (8 - count) + unread rest (count + 8) := by
  have exponent : (16 - count - 8 * ((byte :: rest).length : ℤ)) =
      16 - (count + 8) - 8 * (rest.length : ℤ) := by
    rw [List.length_cons]
    push_cast
    ring
  rw [unread, unread, exponent, payloadValue_cons]
  push_cast
  rw [add_mul, mul_assoc, weight_digits, show 16 - (count + 8) = 8 - count by ring]

theorem unread_nonneg (rest : List UInt8) (count : Int) : 0 ≤ unread rest count := by
  unfold unread
  positivity

/-- All unread bytes together are less than the last loaded bit. -/
theorem unread_lt (rest : List UInt8) (count : Int) :
    unread rest count < (2 : ℚ) ^ (16 - count) := by
  have value : (payloadValue rest : ℚ) < 256 ^ rest.length := by exact_mod_cast payloadValue_lt rest
  rw [← weight_digits rest.length]
  exact mul_lt_mul_of_pos_right value (by positivity)

/-- Loading moves bytes into the window and keeps what both say together. -/
theorem load_spec (rest : List UInt8) (loaded window : Nat) (count : Int)
    (aligned : Aligned rest window count) :
    (((load rest loaded window count).2.2.1 : ℚ) + 1 -
          unread (load rest loaded window count).1 (load rest loaded window count).2.2.2 =
        window + 1 - unread rest count) ∧
      (load rest loaded window count).2.2.1 ≤ window ∧
      Aligned (load rest loaded window count).1 (load rest loaded window count).2.2.1
        (load rest loaded window count).2.2.2 ∧
      ((load rest loaded window count).1 ≠ [] → 8 < (load rest loaded window count).2.2.2) := by
  induction rest generalizing loaded window count with
  | nil => exact ⟨rfl, Nat.le_refl _, aligned, fun h => absurd rfl h⟩
  | cons byte rest ih =>
      obtain ⟨small, divides⟩ := aligned (by simp)
      rw [load]
      split
      · exact ⟨rfl, Nat.le_refl _, aligned, fun _ => by assumption⟩
      · obtain ⟨unit, unit_eq⟩ : ∃ unit : Nat, (unit : Int) = 8 - count :=
          ⟨(8 - count).toNat, by omega⟩
        rw [show (16 - count).toNat = unit + 8 by omega, Nat.pow_add] at divides
        have unit_toNat : (8 - count).toNat = unit := by omega
        -- the byte fits below the window, whose low digits are all ones
        have fits : byte.toNat * 2 ^ unit ≤ window := by
          have filled := Nat.le_of_dvd (Nat.succ_pos window) divides
          have byte_lt := Nat.mul_lt_mul_of_pos_right byte.toNat_lt (Nat.two_pow_pos unit)
          rw [Nat.mul_comm] at filled
          omega
        have next : Aligned rest (window - byte.toNat * 2 ^ unit) (count + 8) := by
          intro _
          refine ⟨by omega, ?_⟩
          rw [show (16 - (count + 8)).toNat = unit by omega,
            show window - byte.toNat * 2 ^ unit + 1 = window + 1 - byte.toNat * 2 ^ unit by omega]
          exact Nat.dvd_sub (dvd_of_mul_right_dvd divides) (Dvd.intro_left _ rfl)
        obtain ⟨same, lower, still, full⟩ := ih (loaded + 1) _ _ next
        rw [unit_toNat]
        refine ⟨?_, lower.trans (Nat.sub_le _ _), still, full⟩
        rw [same, unread_cons, ← unit_eq, zpow_natCast]
        push_cast [fits]
        ring

/-- Each byte that is loaded brings the eight bits that it is counted for. -/
theorem load_bits (rest : List UInt8) (loaded window : Nat) (count : Int) :
    8 * ((load rest loaded window count).2.1 : Int) - (load rest loaded window count).2.2.2 =
      8 * loaded - count := by
  induction rest generalizing loaded window count with
  | nil => rfl
  | cons byte rest ih =>
      rw [load]
      split
      · rfl
      · rw [ih]
        push_cast
        ring

/-! ## The invariant -/

/-- The invariant of a reader, whatever its payload. -/
structure Sound (reader : Reader) : Prop where
  scaled : InScale reader.range
  window_lt : reader.window < reader.range * 65536
  aligned : Aligned reader.rest reader.window reader.count
  /-- The point is loaded as far as there are bytes. -/
  count_nonneg : reader.rest ≠ [] → 0 ≤ reader.count

theorem range_refill (reader : Reader) : reader.refill.range = reader.range := by
  unfold refill
  dsimp only
  split <;> rfl

theorem size_refill (reader : Reader) : reader.refill.size = reader.size := by
  unfold refill
  dsimp only
  split <;> rfl

/-- Loading does not move the position: where the count jumps, the offset does too. -/
theorem bits_refill (reader : Reader) : reader.refill.bits = reader.bits := by
  have moved := load_bits reader.rest reader.loaded reader.window reader.count
  unfold refill bits
  generalize load reader.rest reader.loaded reader.window reader.count = filled at moved ⊢
  obtain ⟨rest, loaded, window, count⟩ := filled
  dsimp only at moved ⊢
  split <;> dsimp only <;> omega

theorem distance_refill {reader : Reader}
    (aligned : Aligned reader.rest reader.window reader.count) :
    reader.refill.distance = reader.distance := by
  obtain ⟨same, -⟩ := load_spec reader.rest reader.loaded reader.window reader.count aligned
  unfold refill
  dsimp only
  split
  next all =>
    rw [all, unread_nil] at same
    rw [distance, distance, ← same, all, unread_nil]
  · exact same

theorem sound_refill {reader : Reader} (scaled : InScale reader.range)
    (window_lt : reader.window < reader.range * 65536)
    (aligned : Aligned reader.rest reader.window reader.count) : reader.refill.Sound := by
  obtain ⟨-, lower, still, full⟩ :=
    load_spec reader.rest reader.loaded reader.window reader.count aligned
  unfold refill
  dsimp only
  split
  next all => exact ⟨scaled, lower.trans_lt window_lt, fun more => absurd all more,
      fun more => absurd all more⟩
  · exact ⟨scaled, lower.trans_lt window_lt, still, fun more =>
      le_trans (by decide : (0 : Int) ≤ 8) (full more).le⟩

theorem aligned_start (payload : List UInt8) : Aligned payload (2 ^ 31 - 1) (-15) :=
  fun _ => ⟨by decide, by decide⟩

/-- A reader at the start of a payload. -/
theorem sound_ofBytes (payload : List UInt8) : (ofBytes payload).Sound := by
  apply sound_refill inScale_fullRange _ (aligned_start payload)
  show 2 ^ 31 - 1 < fullRange * 65536
  decide

theorem distance_ofBytes (payload : List UInt8) :
    (ofBytes payload).distance =
      (32768 - payloadValue payload / 256 ^ payload.length * 2 ^ 15) * 65536 := by
  rw [ofBytes, distance_refill (aligned_start payload), distance]
  have weight : (2 : ℚ) ^ (16 - (-15) - 8 * (payload.length : ℤ)) =
      2 ^ 31 / 256 ^ payload.length := by
    rw [eq_div_iff (by positivity), mul_comm]
    exact weight_digits payload.length 31
  rw [unread, weight]
  norm_num
  ring

/-- Where a reader may go on: a part of the range, and a window within it. -/
structure Entry (reader : Reader) (window part : Nat) : Prop where
  positive : 0 < part
  small : part ≤ 65535
  window_lt : window < part * 65536
  aligned : Aligned reader.rest window reader.count

/-- Going on with a part scales the distance, and keeps the invariant. -/
theorem enter_spec {reader : Reader} {window part : Nat}
    (entry : reader.Entry window part) :
    (reader.enter window part).Sound ∧
      (reader.enter window part).range = part * 2 ^ headroom part ∧
      (reader.enter window part).bits = reader.bits + headroom part ∧
      (reader.enter window part).size = reader.size ∧
      (reader.enter window part).distance =
        (window + 1 - unread reader.rest reader.count) * 2 ^ headroom part := by
  have scaled := inScale_scaled entry.positive entry.small
  have whole : 0 < 2 ^ headroom part := by positivity
  -- scaling up fills the window with ones from below
  have above : 0 < (window + 1) * 2 ^ headroom part := by positivity
  have window_lt : (window + 1) * 2 ^ headroom part - 1 < part * 2 ^ headroom part * 65536 := by
    have : (window + 1) * 2 ^ headroom part ≤ part * 65536 * 2 ^ headroom part :=
      Nat.mul_le_mul_right _ entry.window_lt
    rw [Nat.mul_right_comm] at this
    omega
  have aligned : Aligned reader.rest ((window + 1) * 2 ^ headroom part - 1)
      (reader.count - headroom part) := by
    intro more
    obtain ⟨small, divides⟩ := entry.aligned more
    refine ⟨by omega, ?_⟩
    rw [Nat.sub_add_cancel above,
      show (16 - (reader.count - headroom part)).toNat =
        (16 - reader.count).toNat + headroom part by omega, Nat.pow_add]
    exact Nat.mul_dvd_mul_right divides _
  have moved : unread reader.rest (reader.count - headroom part) =
      unread reader.rest reader.count * 2 ^ headroom part := by
    rw [unread, unread, mul_assoc, ← zpow_natCast, ← zpow_add₀ two_ne_zero]
    congr 2
    ring
  have distance : ((((window + 1) * 2 ^ headroom part - 1 : Nat) : ℚ) + 1 -
      unread reader.rest (reader.count - headroom part)) =
        (window + 1 - unread reader.rest reader.count) * 2 ^ headroom part := by
    rw [moved, Nat.cast_sub above]
    push_cast
    ring
  have bits : 8 * (reader.loaded : Int) - (reader.count - headroom part) + reader.offset =
      reader.bits + headroom part := by
    unfold Reader.bits
    ring
  unfold enter
  dsimp only
  split
  · exact ⟨sound_refill scaled window_lt aligned, range_refill _, (bits_refill _).trans bits,
      size_refill _, (distance_refill aligned).trans distance⟩
  · exact ⟨⟨scaled, window_lt, aligned, fun _ => by dsimp only; omega⟩, rfl, bits, rfl, distance⟩

/-! ## Boundaries -/

section Boundaries

variable {reader : Reader}

theorem Sound.point_lt (sound : reader.Sound) : reader.window / 65536 < reader.range := by
  have := sound.window_lt
  omega

/-- Comparing the loaded point with a boundary compares the whole payload with it. -/
theorem Sound.le_point_iff (sound : reader.Sound) (boundary : Nat) :
    boundary ≤ reader.window / 65536 ↔ (boundary : ℚ) * 65536 < reader.distance := by
  have loaded : boundary ≤ reader.window / 65536 ↔ boundary * 65536 < reader.window + 1 := by
    omega
  rw [loaded]
  by_cases all : reader.rest = []
  · rw [distance, all, unread_nil, sub_zero]
    exact_mod_cast Iff.rfl
  · obtain ⟨small, divides⟩ := sound.aligned all
    have filled := sound.count_nonneg all
    obtain ⟨digits, digits_eq⟩ : ∃ digits : Nat, (digits : Int) = 16 - reader.count :=
      ⟨(16 - reader.count).toNat, by omega⟩
    rw [show (16 - reader.count).toNat = digits by omega] at divides
    obtain ⟨units, units_eq⟩ := divides
    have low := unread_nonneg reader.rest reader.count
    have high := unread_lt reader.rest reader.count
    rw [← digits_eq, zpow_natCast] at high
    have whole : 65536 = 2 ^ (16 - digits) * 2 ^ digits := by
      rw [← Nat.pow_add, Nat.sub_add_cancel (by omega)]
    -- in units of the last loaded bit, the unread bytes are less than one
    have boundary_eq : boundary * 65536 = boundary * 2 ^ (16 - digits) * 2 ^ digits := by
      rw [Nat.mul_assoc, ← whole]
    have window_eq : (reader.window : ℚ) + 1 = 2 ^ digits * units := by exact_mod_cast units_eq
    have scaled : (boundary : ℚ) * 65536 = (boundary * 2 ^ (16 - digits) : Nat) * 2 ^ digits := by
      exact_mod_cast boundary_eq
    rw [boundary_eq, units_eq, distance, window_eq, scaled]
    generalize boundary * 2 ^ (16 - digits) = bound
    generalize unread reader.rest reader.count = rest at low high
    constructor
    · intro less
      have less : bound < units := by
        rw [Nat.mul_comm (2 ^ digits)] at less
        exact Nat.lt_of_mul_lt_mul_right less
      have : ((bound + 1 : Nat) : ℚ) * 2 ^ digits ≤ units * 2 ^ digits :=
        mul_le_mul_of_nonneg_right (by exact_mod_cast less) (by positivity)
      push_cast at this
      linarith
    · intro less
      have : (bound : ℚ) * 2 ^ digits < 2 ^ digits * units := by linarith
      exact_mod_cast this

variable {cdf : Cdf}

/-- The walk down a row stops at the first symbol whose lower end is not above the point. -/
theorem choose_eq (range point : Nat) {first symbol : Nat} (order : first ≤ symbol)
    (inside : symbol < cdf.arity) (reached : lowerEnd cdf range symbol ≤ point)
    (passed : ∀ i, first ≤ i → i < symbol → point < lowerEnd cdf range i) :
    choose range point (cdf.drop first) first (upperEnd cdf range first) =
      ⟨symbol, upperEnd cdf range symbol, lowerEnd cdf range symbol⟩ := by
  unfold Cdf.arity at inside
  -- from the symbol down to `first`, which the walk passes by
  induction order using Nat.decreasingInduction with
  | self =>
      rw [List.drop_eq_getElem_cons (by omega), choose]
      have lower : scale range cdf[symbol] + minPart * ((cdf.drop (symbol + 1)).length - 1) =
          lowerEnd cdf range symbol := by
        rw [lowerEnd, List.getD_eq_getElem _ _ (by omega), List.length_drop]
        congr 2
        omega
      simp only [lower]
      exact if_pos (Or.inl reached)
  | of_succ first order ih =>
      have ahead := passed first (Nat.le_refl _) (by omega)
      rw [List.drop_eq_getElem_cons (by omega), choose]
      have lower : scale range cdf[first] + minPart * ((cdf.drop (first + 1)).length - 1) =
          lowerEnd cdf range first := by
        rw [lowerEnd, List.getD_eq_getElem _ _ (by omega), List.length_drop]
        congr 2
        omega
      have more : ¬(lowerEnd cdf range first ≤ point ∨ (cdf.drop (first + 1)).length ≤ 1) := by
        rw [List.length_drop]
        omega
      simp only [lower]
      rw [if_neg more]
      exact ih fun i after before => passed i (by omega) before

/-- A point below the upper end of the range lies between the ends of some symbol. -/
theorem exists_between (codable : cdf.Codable) {range point : Nat} (below : point < range) :
    ∃ symbol, symbol < cdf.arity ∧ lowerEnd cdf range symbol ≤ point ∧
      point < upperEnd cdf range symbol := by
  have long := codable.three_le
  have reached : ∃ i, lowerEnd cdf range i ≤ point :=
    ⟨cdf.length - 2, by rw [lowerEnd_last codable]; exact Nat.zero_le _⟩
  -- the first symbol whose lower end is not above the point, as that of the last one is zero
  classical
  refine ⟨Nat.find reached, ?_, Nat.find_spec reached, ?_⟩
  · have := Nat.find_min' reached (by rw [lowerEnd_last codable]; exact Nat.zero_le _)
    unfold Cdf.arity
    omega
  · cases least : Nat.find reached with
    | zero => exact below
    | succ before =>
        have := Nat.find_min reached (show before < Nat.find reached by omega)
        exact Nat.lt_of_not_le this

/-- A reader may go on with any part of the range that its point lies in. -/
theorem Sound.entry (sound : reader.Sound) {upper lower : Nat} (within : upper ≤ reader.range)
    (reached : lower ≤ reader.window / 65536) (below : reader.window / 65536 < upper) :
    reader.Entry (reader.window - lower * 65536) (upper - lower) where
  positive := by omega
  small := by
    have := sound.scaled.2
    omega
  window_lt := by
    rw [Nat.sub_mul]
    omega
  aligned := by
    intro more
    obtain ⟨small, divides⟩ := sound.aligned more
    have filled := sound.count_nonneg more
    refine ⟨small, ?_⟩
    have whole : 2 ^ (16 - reader.count).toNat ∣ 65536 :=
      pow_dvd_pow 2 (show (16 - reader.count).toNat ≤ 16 by omega)
    rw [show reader.window - lower * 65536 + 1 = reader.window + 1 - lower * 65536 by omega]
    exact Nat.dvd_sub divides (Dvd.dvd.mul_left whole _)

/-- A reader whose point lies between the ends of a symbol may go on with the symbol's part. -/
theorem Sound.entry_between (sound : reader.Sound) (roomy : cdf.Roomy) {symbol : Nat}
    (inside : symbol < cdf.arity)
    (reached : lowerEnd cdf reader.range symbol ≤ reader.window / 65536)
    (below : reader.window / 65536 < upperEnd cdf reader.range symbol) :
    reader.Entry (reader.window - lowerEnd cdf reader.range symbol * 65536)
      (upperEnd cdf reader.range symbol - lowerEnd cdf reader.range symbol) :=
  sound.entry (upperEnd_le roomy sound.scaled inside) reached below

/-- Reading with a row that has room for its symbols selects the symbol whose ends the point lies
between. -/
theorem symbol_eq (scaled : InScale reader.range) (roomy : cdf.Roomy) {symbol : Nat}
    (inside : symbol < cdf.arity)
    (reached : lowerEnd cdf reader.range symbol ≤ reader.window / 65536)
    (below : reader.window / 65536 < upperEnd cdf reader.range symbol) :
    reader.symbol cdf =
      (reader.enter (reader.window - lowerEnd cdf reader.range symbol * 65536)
        (upperEnd cdf reader.range symbol - lowerEnd cdf reader.range symbol)).deliver symbol := by
  have codable := roomy.1
  have passed : ∀ i, 0 ≤ i → i < symbol → reader.window / 65536 < lowerEnd cdf reader.range i := by
    intro i _ before
    obtain ⟨last, rfl⟩ : ∃ last, symbol = last + 1 := ⟨symbol - 1, by omega⟩
    have := lowerEnd_anti codable reader.range (show i ≤ last by omega) (by omega)
    exact Nat.lt_of_lt_of_le below this
  have chosen := choose_eq reader.range _ (Nat.zero_le symbol) inside reached passed
  rw [List.drop_zero] at chosen
  have chosen : choose reader.range (reader.window / 65536) cdf 0 reader.range = _ := chosen
  have within := upperEnd_le roomy scaled inside
  -- the reader has nothing against such a row
  have row : ¬(cdf.length < 3 ∨ cdf.terminal ≠ 0 ∨ Cdf.countMax < cdf.count) := by
    have := codable.three_le
    have := codable.terminal_eq
    have := codable.count_le
    omega
  unfold Reader.symbol
  rw [if_neg row]
  dsimp only
  rw [chosen, if_neg (by dsimp only; omega)]

end Boundaries

end TileCoder.Range.Reader
