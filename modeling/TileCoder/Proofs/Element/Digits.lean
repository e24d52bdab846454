import Mathlib.Tactic
import TileCoder.Element.Number
import TileCoder.Proofs.Code.Recenter
import TileCoder.Proofs.Element.Follows

/-!
# Integer codes in a tile

The codes that a tile carries as bare bits, read back through its reader. Each is a run of digits
that says how many follow, and the digits that follow. `Number.Fits` says of which values a code
has a word, and `Number.follows_read` that those are read back.
-/

namespace TileCoder

/-- The short codes of a uniform code and the long ones fill up the digits of its width. -/
theorem Code.uniformSplit_spec {size width short : Nat} (several : 1 < size)
    (cut : uniformSplit size = (width, short)) :
    size + short = 2 * 2 ^ (width - 1) ∧ short ≤ 2 ^ (width - 1) := by
  obtain ⟨rfl, rfl⟩ := Prod.mk.inj cut
  have nonzero : size ≠ 0 := by omega
  have low := Nat.log2_self_le nonzero
  have high := Nat.lt_log2_self (n := size)
  rw [bitLength, if_neg nonzero, Nat.add_sub_cancel, Nat.pow_succ] at *
  omega

/-- Numbers less than half of all words apart are as far apart as they are as words. -/
theorem Code.distance_eq {low value : Int} (above : low ≤ value) (near : value - low ≤ 2 ^ 31) :
    (distance low value : Int) = value - low := by
  unfold distance wordSize
  rw [Int.emod_eq_of_lt (by omega) (by omega)]
  omega

theorem Code.signedWord_of_lt {word : Nat} (small : word < 2 ^ 31) : signedWord word = word := by
  unfold signedWord wordSize
  exact Int.bmod_eq_of_le (by omega) (by omega)

/-- A number below `size` is read back from its uniform code. -/
theorem Parse.follows_uniform {size value : Nat} (below : value < size) :
    (Code.readUniform size : Parse Nat).Follows ((Code.uniform size value).map .bit) value := by
  unfold Code.readUniform Code.uniform
  by_cases few : size ≤ 1
  · rw [if_pos few, if_pos few, show value = 0 by omega]
    exact .done 0
  rw [if_neg few, if_neg few]
  cases cut : Code.uniformSplit size with
  | mk width short =>
  obtain ⟨total, half⟩ := Code.uniformSplit_spec (Nat.lt_of_not_le few) cut
  dsimp only
  -- a short code is the value itself; a long one is the values that share its digits, and one bit
  -- to tell them apart
  by_cases isShort : value < short
  · have first : (Code.field (width - 1) : Parse Nat).Follows _ value :=
      follows_literal (Nat.lt_of_lt_of_le isShort half)
    rw [if_pos isShort, ← List.append_nil (List.map _ _)]
    refine first.bind ?_
    rw [if_pos isShort]
    exact .done value
  · have fits : short + (value - short) / 2 < 2 ^ (width - 1) := by omega
    have first : (Code.field (width - 1) : Parse Nat).Follows _ _ := follows_literal fits
    have last : (Code.field 1 : Parse Nat).Follows _ _ := follows_literal_mod 1 (value - short)
    rw [if_neg isShort, List.map_append]
    refine first.bind ?_
    rw [if_neg (by omega), ← List.append_nil (List.map _ _)]
    refine last.bind ?_
    rw [show 2 * (short + (value - short) / 2) - short + (value - short) % 2 ^ 1 = value by omega]
    exact .done value

theorem restores_uniform {size value : Nat} (below : value < size) :
    Restores (Plan.bits (Code.uniform size value)) (Code.readUniform size) value :=
  fun _ _ => Parse.follows_uniform below

/-! ## Digit counts in front -/

namespace Parse

/-- As many zeros are counted as stand in front of the first one bit. -/
theorem follows_countZeros {limit zeros : Nat} (below : zeros < limit) :
    (Code.countZeros limit : Parse Nat).Follows
      ((List.replicate zeros false ++ [true]).map .bit) zeros := by
  induction zeros generalizing limit with
  | zero =>
      obtain ⟨more, rfl⟩ : ∃ more, limit = more + 1 := ⟨limit - 1, by omega⟩
      exact .bit (.done 0)
  | succ zeros ih =>
      obtain ⟨more, rfl⟩ : ∃ more, limit = more + 1 := ⟨limit - 1, by omega⟩
      rw [List.replicate_succ, List.cons_append, List.map_cons]
      refine .bit ?_
      have below_more : zeros < more := by omega
      exact (ih below_more).map_done fun counted => counted + 1

/-- No more zeros are counted than the limit. -/
theorem follows_countZeros_limit (limit : Nat) :
    (Code.countZeros limit : Parse Nat).Follows ((List.replicate limit false).map .bit) limit := by
  induction limit with
  | zero => exact .done 0
  | succ limit ih =>
      rw [List.replicate_succ, List.map_cons]
      refine .bit ?_
      exact ih.map_done fun counted => counted + 1

/-- The digits of a number of just this many begin with a one bit. -/
theorem ofNat_bitLength {n : Nat} (positive : n ≠ 0) :
    Bits.ofNat (bitLength n) n = true :: Bits.ofNat (bitLength n - 1) n := by
  rw [bitLength, if_neg positive, Nat.add_sub_cancel, Bits.ofNat, Nat.testBit_log2 positive]

theorem follows_gamma {value : Nat} (fits : value < wordSize) :
    (Code.readGamma : Parse Nat).Follows ((Code.gamma value).map .bit) value := by
  unfold Code.gamma Code.readGamma
  by_cases largest : value = wordSize - 1
  · rw [if_pos largest, ← List.append_nil (List.map _ _)]
    apply (follows_countZeros_limit 32).bind
    rw [if_pos rfl, largest]
    exact .done _
  · have positive : value + 1 ≠ 0 := by omega
    have low := Nat.log2_self_le positive
    have high := Nat.lt_log2_self (n := value + 1)
    have few : (value + 1).log2 < 32 := by
      unfold wordSize at fits largest
      exact (Nat.log2_lt positive).mpr (by omega)
    rw [if_neg largest]
    dsimp only
    rw [ofNat_bitLength positive, bitLength, if_neg positive, Nat.add_sub_cancel,
      show ∀ rest : List Bool, List.replicate (value + 1).log2 false ++ true :: rest =
        (List.replicate (value + 1).log2 false ++ [true]) ++ rest by simp, List.map_append]
    apply (follows_countZeros few).bind
    rw [if_neg (by omega), ← List.append_nil (List.map _ _)]
    have digits : (Code.field (value + 1).log2 : Parse Nat).Follows _ _ :=
      follows_literal_mod (value + 1).log2 (value + 1)
    apply digits.bind
    -- behind the leading digit is what the number has more than that digit alone
    have behind : (value + 1) % 2 ^ (value + 1).log2 = value + 1 - 2 ^ (value + 1).log2 := by
      rw [Nat.mod_eq_sub_mod low, Nat.mod_eq_of_lt (by omega)]
    rw [behind, show 2 ^ (value + 1).log2 - 1 + (value + 1 - 2 ^ (value + 1).log2) = value by omega]
    exact .done value

/-! ## Bins -/

/-- A number is read back from its bin and its place there. -/
theorem follows_bin {size k i start value : Nat} (above : start ≤ value) (below : value < size) :
    (Code.readBin size k i start : Parse Nat).Follows
      (((Code.binFrom size k i start value).1 ++ (Code.binFrom size k i start value).2.bits).map
        .bit) value := by
  fun_induction Code.binFrom size k i start value with
  | case1 i start last =>
      rw [Code.readBin, if_pos last]
      have offset : value - start < size - start := by omega
      have uniform := (follows_uniform offset).map_done (· + start)
      rw [Nat.sub_add_cancel above] at uniform
      exact uniform
  | case2 i start more further path tail cut ih =>
      rw [Code.readBin, if_neg more]
      rw [cut] at ih
      exact .bit (ih further)
  | case3 i start more here =>
      rw [Code.readBin, if_neg more]
      have offset : value - start < 2 ^ Code.binWidth i k := by
        unfold Code.binSize at here
        omega
      have digits := (follows_literal offset).map_done (· + start)
      rw [Nat.sub_add_cancel above] at digits
      exact .bit digits

/-- Whatever code a number has around the reference is got back, and the number with that code is
read. -/
theorem follows_recentred {size reference value : Nat} (k : Nat)
    (code_lt : Code.recenterBelow size reference value < size) :
    (Code.readSubexpAround size k reference : Parse Nat).Follows
      ((Code.subexpAround size k reference value).map .bit)
      (Code.unrecenterBelow size reference (Code.recenterBelow size reference value)) :=
  (follows_bin (Nat.zero_le _) code_lt).map_done (Code.unrecenterBelow size reference)

theorem follows_subexpAround {size reference value : Nat} (k : Nat) (small : reference < 2 ^ 31)
    (reference_lt : reference < size) (value_lt : value < size) :
    (Code.readSubexpAround size k reference : Parse Nat).Follows
      ((Code.subexpAround size k reference value).map .bit) value := by
  have recentred := follows_recentred k (Code.recenterBelow_lt small reference_lt value_lt)
  rw [Code.unrecenterBelow_recenterBelow small reference_lt value_lt] at recentred
  exact recentred

/-- A signed number is read back if it and its reference lie in a range that a word can count. -/
theorem follows_signedSubexp {low high reference value : Int} (k : Nat)
    (narrow : high - low ≤ 2 ^ 31) (reference_above : low ≤ reference)
    (reference_below : reference < high) (value_above : low ≤ value) (value_below : value < high) :
    (Code.readSignedSubexp low high k reference : Parse Int).Follows
      ((Code.signedSubexp low high k reference value).map .bit) value := by
  have whole := Code.distance_eq (show low ≤ high by omega) narrow
  have from_reference := Code.distance_eq reference_above (by omega)
  have from_value := Code.distance_eq value_above (by omega)
  have unsigned : Code.signedWord (Code.distance low value) + low = value := by
    rw [Code.signedWord_of_lt (by omega), from_value]
    omega
  have code : (Code.readSubexpAround (Code.distance low high) k (Code.distance low reference) :
      Parse Nat).Follows _ (Code.distance low value) :=
    follows_subexpAround k (by omega) (by omega) (by omega)
  have shifted := code.map_done (Code.signedWord · + low)
  rw [unsigned] at shifted
  exact shifted

end Parse

namespace Number

/-- Where a bin of a code for any number may start: each one but the first is as large as all
before it. -/
def BinStart (k i start : Nat) : Prop :=
  i = 0 ∧ start = 0 ∨ 0 < i ∧ start = Code.binSize i k

theorem BinStart.next {k i start : Nat} (starts : BinStart k i start) :
    BinStart k (i + 1) (start + Code.binSize i k) := by
  refine .inr ⟨Nat.succ_pos i, ?_⟩
  rcases starts with ⟨rfl, rfl⟩ | ⟨later, rfl⟩
  · simp [Code.binSize, Code.binWidth]
  · obtain ⟨before, rfl⟩ : ∃ before, i = before + 1 := ⟨i - 1, by omega⟩
    simp only [Code.binSize, Code.binWidth, Nat.add_one_ne_zero, if_false]
    rw [show k + (before + 1 + 1) - 1 = k + (before + 1) - 1 + 1 by omega, Nat.pow_succ]
    omega

/-- A bin that starts at a word is not too wide. -/
theorem BinStart.width_le {k i start : Nat} (starts : BinStart k i start)
    (narrow : k ≤ maxBinWidth) (fits : start < wordSize) : Code.binWidth i k ≤ maxBinWidth := by
  rcases starts with ⟨rfl, rfl⟩ | ⟨later, rfl⟩
  · exact narrow
  · rw [wordSize_eq] at fits
    have := (Nat.pow_lt_pow_iff_right (show 1 < 2 by decide)).mp fits
    exact this.le

theorem follows_subexpFrom {k i start value : Nat} (narrow : k ≤ maxBinWidth)
    (fits : value < wordSize) (above : start ≤ value) (starts : BinStart k i start) :
    (readSubexpFrom k i start).Follows ((Code.subexpFrom k i start value).map .bit) value := by
  fun_induction Code.subexpFrom k i start value with
  | case1 i start further ih =>
      have width := starts.width_le narrow (by omega)
      rw [readSubexpFrom, if_neg (Nat.not_lt.mpr width)]
      refine .bit ?_
      rw [if_pos rfl, if_neg (by omega)]
      exact ih further starts.next
  | case2 i start here =>
      have width := starts.width_le narrow (by omega)
      have offset : value - start < 2 ^ Code.binWidth i k := by
        unfold Code.binSize at here
        omega
      rw [readSubexpFrom, if_neg (Nat.not_lt.mpr width)]
      refine .bit ?_
      rw [if_neg Bool.false_ne_true, ← List.append_nil (List.map _ _)]
      apply (Parse.follows_literal offset).bind
      rw [Nat.add_sub_cancel' above, if_neg (by omega)]
      exact .done value

/-! ## Windows -/

/-- A window is `span` numbers in a row, all below `size`. -/
theorem window_spec {size span reference : Nat} (fits : Code.WindowFits size span reference) :
    (Code.window size span reference).2 + 1 = (Code.window size span reference).1 + span ∧
      (Code.window size span reference).2 < size := by
  obtain ⟨some, within, reference_lt⟩ := fits
  unfold Code.window
  split
  · dsimp only
    omega
  · dsimp only
    split
    · dsimp only
      omega
    · dsimp only
      omega

theorem follows_bilevel {size span reference value : Nat}
    (fits : Code.WindowFits size span reference) (value_lt : value < size) :
    (readBilevel size span reference).Follows ((Code.bilevel size span reference value).map .bit)
      value := by
  unfold readBilevel Code.bilevel
  by_cases few : size ≤ 1
  · rw [if_pos few, if_pos few, show value = 0 by omega]
    exact .done 0
  obtain ⟨length, within⟩ := window_spec fits
  rw [if_neg few, if_neg few, if_neg (not_not_intro fits)]
  unfold Code.windowTail Code.readWindowTail
  generalize Code.window size span reference = window at length within
  obtain ⟨low, high⟩ := window
  dsimp only at length within ⊢
  by_cases inside : low ≤ value ∧ value ≤ high
  · rw [if_pos inside]
    refine .bit ?_
    have offset : value - low < span := by omega
    have uniform := (Parse.follows_uniform offset).map_done (· + low)
    rw [Nat.sub_add_cancel inside.1] at uniform
    exact uniform
  · rw [if_neg inside]
    refine .bit ?_
    have less : ¬((!false) = true ∧ span = size) := by omega
    show (if (!false) = true ∧ span = size then _ else _ : Parse Nat).Follows _ _
    rw [if_neg less]
    -- numbers behind the window have moved up to close the gap
    have closed : (if high < value then value - span else value) < size - span := by
      split <;> omega
    have uniform := (Parse.follows_uniform closed).map_done
      fun offset => if low ≤ offset then offset + span else offset
    rw [show (if low ≤ (if high < value then value - span else value) then
      (if high < value then value - span else value) + span
      else (if high < value then value - span else value)) = value by split <;> split <;> omega]
      at uniform
    exact uniform

/-! ## All codes -/

/-- Whether a code with these parameters has a word for the value. -/
def Fits : Number → (value : Nat) → Prop
  | literal width, value => value < 2 ^ width
  | gamma, value => value < wordSize
  | uniform size, value => value < size
  | subexp k, value => k ≤ maxBinWidth ∧ value < wordSize
  | subexpBelow size _, value => value < size
  | subexpAround size _ reference, value => size ≤ 2 ^ 31 ∧ reference < size ∧ value < size
  | bilevel size span reference, value => Code.WindowFits size span reference ∧ value < size

/-- A number that has a word is read back from its digits. -/
theorem follows_read {number : Number} {value : Nat} (fits : number.Fits value) :
    number.read.Follows ((number.bits value).map .bit) value := by
  cases number with
  | literal width => exact Parse.follows_literal fits
  | gamma => exact Parse.follows_gamma fits
  | uniform size => exact Parse.follows_uniform fits
  | subexp k => exact follows_subexpFrom fits.1 fits.2 (Nat.zero_le _) (.inl ⟨rfl, rfl⟩)
  | subexpBelow size k => exact Parse.follows_bin (Nat.zero_le _) fits
  | subexpAround size k reference =>
      obtain ⟨small, reference_lt, value_lt⟩ := fits
      exact Parse.follows_subexpAround k (Nat.lt_of_lt_of_le reference_lt small) reference_lt value_lt
  | bilevel size span reference => exact follows_bilevel fits.1 fits.2

end Number

end TileCoder
