import TileCoder.Proofs.Recoding.Numbers
import TileCoder.Proofs.Tile.BareBits

/-!
# Numbers from any bits

The integer codes are complete: with parameters that make a code (`Number.IsCode`), any bits lead to a
number within 64 of them (`Number.takes_some`), it is below the number of values of the code, and the
bits that were read are its own (`Number.takes_read`). The one exception is a window that holds all
numbers, which leaves none to say outside of it (`Number.LeavesNone`).
-/

namespace TileCoder

open Parse

theorem bitLength_le {n width : Nat} (fits : n < 2 ^ width) : bitLength n ≤ width := by
  unfold bitLength
  split
  · omega
  next nonzero => exact (Nat.log2_lt nonzero).mpr fits

/-- A bin of numbers of a word has fewer digits than the word, unless it is the last. -/
theorem Code.binWidth_lt {size k i start : Nat} (word : size < wordSize)
    (more : ¬size ≤ start + 3 * binSize i k) : binWidth i k < 31 := by
  unfold binSize wordSize at *
  have small : 2 ^ binWidth i k < 2 ^ 31 := by omega
  exact (Nat.pow_lt_pow_iff_right (by decide)).mp small

/-! ## Bits that are enough -/

namespace Parse

/-- The longest code of a number. -/
def longest : Nat := 64

theorem settles_uniform_bitLength (size : Nat) :
    (Code.readUniform size : Parse Nat).Settles (bitLength size) := by
  unfold Code.readUniform
  by_cases few : size ≤ 1
  · rw [if_pos few]
    exact settles_pure 0 _
  rw [if_neg few]
  have width_pos : 0 < bitLength size := by
    unfold bitLength
    split <;> omega
  refine ((settles_field (bitLength size - 1)).bind (n := 1) ?_).mono (by omega)
  intro _ value _
  split
  · exact settles_pure value 1
  · exact (settles_field 1).map _

theorem settles_uniform {size : Nat} (word : size < wordSize) :
    (Code.readUniform size : Parse Nat).Settles 32 :=
  (settles_uniform_bitLength size).mono (bitLength_le word)

theorem settles_countZeros (limit : Nat) : (Code.countZeros limit : Parse Nat).Settles limit := by
  induction limit with
  | zero => exact settles_pure 0 0
  | succ limit ih =>
      refine ⟨Nat.succ_pos limit, ?_⟩
      intro b
      cases b with
      | true => exact settles_pure 0 limit
      | false => exact ih.map (· + 1)

theorem takes_countZeros {limit zeros : Nat} {steps : List Step}
    (takes : (Code.countZeros limit : Parse Nat).Takes steps zeros) :
    zeros < limit ∧ steps = (List.replicate zeros false ++ [true]).map .bit ∨
      zeros = limit ∧ steps = (List.replicate limit false).map .bit := by
  induction limit generalizing zeros steps with
  | zero =>
      obtain ⟨rfl, rfl⟩ := takes_pure.mp takes
      exact .inr ⟨rfl, rfl⟩
  | succ limit ih =>
      obtain ⟨b, rest, rfl, takes_rest⟩ := Takes.of_bit takes
      cases b with
      | true =>
          obtain ⟨rfl, rfl⟩ := takes_pure.mp takes_rest
          exact .inl ⟨Nat.succ_pos limit, rfl⟩
      | false =>
          obtain ⟨more, rfl, takes_more⟩ := takes_rest.of_map
          rcases ih takes_more with ⟨below, rfl⟩ | ⟨rfl, rfl⟩
          · exact .inl ⟨by omega, rfl⟩
          · exact .inr ⟨rfl, rfl⟩

theorem settles_gamma : (Code.readGamma : Parse Nat).Settles longest := by
  refine (settles_countZeros 32).bind (n := 32) ?_
  intro _ zeros takes
  have few : zeros ≤ 32 := by
    rcases takes_countZeros takes with ⟨below, -⟩ | ⟨rfl, -⟩ <;> omega
  split
  · exact settles_pure _ 32
  · exact ((settles_field zeros).map _).mono few

theorem settles_bin {size k i start : Nat} (word : size < wordSize) :
    (Code.readBin size k i start : Parse Nat).Settles (32 - i + 32) := by
  fun_induction (Code.readBin size k i start : Parse Nat) with
  | case1 i start last =>
      exact ((settles_uniform (by omega)).map (· + start)).mono (by omega)
  | case2 i start more ih =>
      have narrow := Code.binWidth_lt word more
      -- bins get wider, so that a word has less than 32 of them before the last
      have few : i < 32 := by
        unfold Code.binWidth at narrow
        split at narrow <;> omega
      refine (settles_bit.bind (n := 31 - i + 32) ?_).mono (by omega)
      intro _ further _
      cases further with
      | true => exact ih.mono (by omega)
      | false => exact ((settles_field (Code.binWidth i k)).map (· + start)).mono (by omega)

/-- There are bits enough for numbers below any size, be it a word or not. -/
theorem exists_settles_bin (size k i start : Nat) :
    ∃ width, (Code.readBin size k i start : Parse Nat).Settles width := by
  fun_induction (Code.readBin size k i start : Parse Nat) with
  | case1 i start last => exact ⟨_, (settles_uniform_bitLength (size - start)).map (· + start)⟩
  | case2 i start more ih =>
      obtain ⟨width, settles⟩ := ih
      refine ⟨_, settles_bit.bind (n := max width (Code.binWidth i k)) ?_⟩
      intro _ further _
      cases further with
      | true => exact settles.mono (Nat.le_max_left _ _)
      | false =>
          exact ((settles_field (Code.binWidth i k)).map (· + start)).mono (Nat.le_max_right _ _)

theorem settles_windowTail {size span reference : Nat} (word : size < wordSize)
    (within : span ≤ size) (inside : Bool) :
    (Code.readWindowTail size span reference inside : Parse Nat).Settles 32 := by
  unfold Code.readWindowTail
  cases inside with
  | true => exact (settles_uniform (by omega)).map _
  | false => exact (settles_uniform (by omega)).map _

/-! ## Digit counts in front -/

/-- A digit in front of some does not change them. -/
theorem ofNat_two_pow_add {width n : Nat} (fits : n < 2 ^ width) :
    Bits.ofNat width (2 ^ width + n) = Bits.ofNat width n := by
  have own := ofNat_foldl_append 1 (Bits.ofNat width n)
  rwa [Bits.length_ofNat, Bits.foldl_append_ofNat, Nat.one_mul, Nat.mod_eq_of_lt fits] at own

theorem takes_gamma {steps : List Step} {number : Nat}
    (takes : (Code.readGamma : Parse Nat).Takes steps number) :
    number < wordSize ∧ steps = (Code.gamma number).map .bit := by
  obtain ⟨zeros, front, back, rfl, takes_zeros, takes_digits⟩ := Takes.of_bind takes
  unfold Code.gamma
  rcases takes_countZeros takes_zeros with ⟨few, rfl⟩ | ⟨rfl, rfl⟩
  · rw [if_neg (by omega)] at takes_digits
    obtain ⟨digits, rfl, takes_field⟩ := takes_digits.of_map
    obtain ⟨digits_lt, rfl⟩ := takes_literal takes_field
    have positive := Nat.two_pow_pos zeros
    have small : 2 ^ (zeros + 1) ≤ 2 ^ 32 := Nat.pow_le_pow_right (by decide) few
    rw [Nat.pow_succ] at small
    have next_eq : 2 ^ zeros - 1 + digits + 1 = 2 ^ zeros + digits := by omega
    have log : (2 ^ zeros + digits).log2 = zeros := by
      rw [Nat.log2_eq_iff (by omega), Nat.pow_succ]
      omega
    unfold wordSize
    refine ⟨by omega, ?_⟩
    rw [if_neg (by omega), next_eq]
    dsimp only
    rw [ofNat_bitLength (by omega), bitLength, if_neg (by omega), log, Nat.add_sub_cancel,
      ofNat_two_pow_add digits_lt]
    simp
  · rw [if_pos rfl] at takes_digits
    obtain ⟨rfl, rfl⟩ := takes_pure.mp takes_digits
    rw [if_pos rfl]
    exact ⟨by decide, rfl⟩

end Parse

/-! ## Windows -/

namespace Number

/-- What is read as a window code is that of a number below the size. -/
theorem takes_bilevel {size span reference number : Nat} {steps : List Step}
    (fits : Code.WindowFits size span reference)
    (takes : (readBilevel size span reference).Takes steps number) :
    number < size ∧ steps = (Code.bilevel size span reference number).map .bit := by
  unfold readBilevel at takes
  unfold Code.bilevel
  by_cases few : size ≤ 1
  · rw [if_pos few] at takes ⊢
    obtain ⟨rfl, rfl⟩ := takes_pure.mp takes
    exact ⟨Nat.zero_lt_of_lt fits.2.2, rfl⟩
  rw [if_neg few] at takes ⊢
  obtain ⟨-, takes_inside⟩ := Takes.of_given takes
  obtain ⟨inside, rest, rfl, takes_more⟩ := takes_inside.of_bit
  obtain ⟨some_left, takes_tail⟩ := takes_more.of_unless
  obtain ⟨length, within⟩ := window_spec fits
  obtain ⟨some, spanned, -⟩ := fits
  unfold Code.readWindowTail at takes_tail
  unfold Code.windowTail
  generalize Code.window size span reference = window at *
  obtain ⟨low, high⟩ := window
  dsimp only at *
  cases inside with
  | true =>
      obtain ⟨value, rfl, takes_value⟩ := Takes.of_map takes_tail
      obtain ⟨value_lt, rfl⟩ := takes_uniform (by omega) takes_value
      rw [if_pos (by omega), Nat.add_sub_cancel]
      exact ⟨by omega, rfl⟩
  | false =>
      have less : span < size := by
        have span_ne : span ≠ size := fun all => some_left ⟨rfl, all⟩
        omega
      obtain ⟨value, number_eq, takes_value⟩ := Takes.of_map takes_tail
      obtain ⟨value_lt, rfl⟩ := takes_uniform (by omega) takes_value
      -- the numbers behind the window have moved up to close the gap
      have outside : ¬(low ≤ number ∧ number ≤ high) := by
        split at number_eq <;> omega
      have moved : (if high < number then number - span else number) = value := by
        split at number_eq <;> split <;> omega
      rw [if_neg outside]
      dsimp only
      rw [moved]
      refine ⟨?_, rfl⟩
      split at number_eq <;> omega

/-- Any bits lead to a number if the window holds it, or if it does not hold all numbers. -/
theorem takes_some_bilevel {size span reference : Nat} {bits : List Bool} (word : size < wordSize)
    (fits : Code.WindowFits size span reference) (enough : longest ≤ bits.length)
    (leaves : bits.head? = some false → 1 < size → span ≠ size) :
    ∃ value front back, bits = front ++ back ∧
      (readBilevel size span reference).Takes (front.map .bit) value := by
  unfold readBilevel
  by_cases few : size ≤ 1
  · rw [if_pos few]
    exact ⟨0, [], bits, rfl, .done 0⟩
  rw [if_neg few, if_neg (not_not_intro fits)]
  unfold longest at enough
  cases bits with
  | nil =>
      rw [List.length_nil] at enough
      omega
  | cons inside rest =>
      rw [List.length_cons] at enough
      have accepted : ¬((!inside) = true ∧ span = size) := by
        rintro ⟨outside, all⟩
        cases inside with
        | true => cases outside
        | false => exact leaves rfl (by omega) all
      have settles : (Code.readWindowTail size span reference inside : Parse Nat).Settles 32 :=
        settles_windowTail word fits.2.1 inside
      obtain ⟨value, front, back, rfl, takes⟩ := settles.takes (show 32 ≤ rest.length by omega)
      refine ⟨value, inside :: front, back, rfl, .bit ?_⟩
      show (if (!inside) = true ∧ span = size then _ else _ : Parse Nat).Takes _ _
      rw [if_neg accepted]
      exact takes

/-! ## Bins without end -/

/-- What is read from a bin on lies in that bin or in a later one, and is a word. -/
theorem takes_subexpFrom {k i start number : Nat} {steps : List Step}
    (takes : (readSubexpFrom k i start).Takes steps number) :
    start ≤ number ∧ number < wordSize ∧
      steps = (Code.subexpFrom k i start number).map .bit := by
  induction i, start using readSubexpFrom.induct k generalizing steps with
  | @case1 i start width wide =>
      rw [readSubexpFrom, if_pos wide] at takes
      exact absurd takes not_takes_fail
  | @case2 i start width narrow ih =>
      have room := Code.binSize_pos i k
      rw [readSubexpFrom, if_neg narrow] at takes
      rw [Code.subexpFrom.eq_def k i start number]
      cases takes with
      | @bit further next rest result tail =>
          dsimp only at tail
          cases further with
          | true =>
              rw [if_pos rfl] at tail
              by_cases large : wordSize ≤ start + Code.binSize i k
              · rw [if_pos large] at tail
                exact absurd tail not_takes_fail
              · rw [if_neg large] at tail
                obtain ⟨above, below, rfl⟩ := ih large tail
                rw [if_pos above]
                exact ⟨by omega, below, rfl⟩
          | false =>
              rw [if_neg Bool.false_ne_true] at tail
              obtain ⟨offset, last, offset_lt, rfl, takes_sum⟩ := Takes.of_literal tail
              obtain ⟨small, takes_value⟩ := takes_sum.of_unless
              obtain ⟨rfl, rfl⟩ := takes_pure.mp takes_value
              have here : offset < Code.binSize i k := offset_lt
              rw [if_neg (by omega), Nat.add_sub_cancel_left, List.append_nil]
              exact ⟨Nat.le_add_right _ _, by omega, rfl⟩

/-! ## All codes -/

/-- Whether the parameters make a code of words. -/
def IsCode : Number → Prop
  | literal width => width ≤ maxWidth
  | gamma => True
  | uniform size | subexpBelow size _ => 0 < size ∧ size < wordSize
  | subexp k => k ≤ maxBinWidth
  | subexpAround size _ reference => size ≤ 2 ^ 31 ∧ reference < size
  | bilevel size span reference => size < wordSize ∧ Code.WindowFits size span reference

/-- How many numbers a code has words for: those below this one. -/
def arity : Number → Nat
  | literal width => 2 ^ width
  | gamma | subexp _ => wordSize
  | uniform size | subexpBelow size _ | subexpAround size .. | bilevel size .. => size

/-- Whether bits say that a number lies outside of a window which holds all. -/
def LeavesNone : Number → (bits : List Bool) → Prop
  | bilevel size span _, bits => 1 < size ∧ span = size ∧ bits.head? = some false
  | _, _ => False

instance : (number : Number) → Decidable number.IsCode
  | literal _ | subexp _ => inferInstanceAs (Decidable (_ ≤ _))
  | gamma => inferInstanceAs (Decidable True)
  | uniform _ | subexpBelow .. | subexpAround .. | bilevel .. =>
      inferInstanceAs (Decidable (_ ∧ _))

variable {number : Number} {value : Nat}

theorem fits_of_lt_arity (isCode : number.IsCode) (below : value < number.arity) :
    number.Fits value := by
  cases number with
  | literal width => exact below
  | gamma => exact below
  | uniform size => exact below
  | subexp k => exact ⟨isCode, below⟩
  | subexpBelow size k => exact below
  | subexpAround size k reference => exact ⟨isCode.1, isCode.2, below⟩
  | bilevel size span reference => exact ⟨isCode.2, below⟩

/-- **What is read as a number is its code**, and it is a number that the code is for. -/
theorem takes_read {steps : List Step} (isCode : number.IsCode)
    (takes : number.read.Takes steps value) :
    value < number.arity ∧ steps = (number.bits value).map .bit := by
  cases number with
  | literal width => exact takes_literal takes
  | gamma => exact takes_gamma takes
  | uniform size => exact takes_uniform isCode.1 takes
  | subexp k => exact (takes_subexpFrom takes).2
  | subexpBelow size k => exact (takes_bin isCode.1 takes).2
  | subexpAround size k reference =>
      exact takes_subexpAround (Nat.lt_of_lt_of_le isCode.2 isCode.1) isCode.2 takes
  | bilevel size span reference => exact takes_bilevel isCode.2 takes

/-- **Any bits lead to a number**, but for those that leave none outside of a window, and those of a
code that has words for more than a word. -/
theorem takes_some {bits : List Bool} (isCode : number.IsCode) (ends : ∀ k, number ≠ .subexp k)
    (enough : longest ≤ bits.length) (leaves : ¬number.LeavesNone bits) :
    ∃ value front back, bits = front ++ back ∧ number.read.Takes (front.map .bit) value := by
  cases number with
  | literal width => exact (settles_field width).takes (isCode.trans (Nat.le_trans (by decide) enough))
  | gamma => exact settles_gamma.takes enough
  | uniform size => exact (settles_uniform isCode.2).takes (Nat.le_trans (by decide) enough)
  | subexp k => exact absurd rfl (ends k)
  | subexpBelow size k => exact (settles_bin isCode.2).takes enough
  | subexpAround size k reference =>
      have word : size < wordSize := Nat.lt_of_le_of_lt isCode.1 (by decide)
      exact ((settles_bin word).map (Code.unrecenterBelow size reference)).takes enough
  | bilevel size span reference =>
      refine takes_some_bilevel isCode.1 isCode.2 enough ?_
      intro outside several all
      exact leaves ⟨several, all, outside⟩

end Number

end TileCoder
