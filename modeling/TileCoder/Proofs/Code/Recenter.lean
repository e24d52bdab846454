import Mathlib.Tactic
import TileCoder.Code.Recenter

/-!
# Recentring

Where the reference lies in the lower half of the words, no number that recentring goes through leaves
the words (`recenter_eq`, `unrecenter_eq`). Numbers below a size are then recentred to numbers below
the same size, and each is got back from its code (`unrecenterBelow_recenterBelow`). All numbers below
the size are codes, each of the number that it is read as (`recenterBelow_unrecenterBelow`).
-/

namespace TileCoder.Code

theorem twice_of_lt {n : Nat} (fits : n < 2 ^ 31) : twice n = 2 * n := by
  unfold twice wordSize
  omega

/-- A difference of words that is not negative is a word. -/
theorem word_sub {a b : Nat} (le : b ≤ a) (fits : a < wordSize) : word (a - b) = a - b := by
  have cast := word_of_fits (n := (a : Int) - b) (by omega) (by omega)
  omega

section Recenter

variable {reference : Nat}

/-- The code of a value where nothing wraps. -/
theorem recenter_eq (small : reference < 2 ^ 31) (value : Nat) :
    recenter reference value =
      if 2 * reference < value then value
      else if reference ≤ value then 2 * (value - reference)
      else 2 * (reference - value) - 1 := by
  unfold recenter
  rw [twice_of_lt small]
  split
  · rfl
  next near =>
    split
    next above => exact twice_of_lt (by omega)
    next below =>
      rw [twice_of_lt (by omega)]
      exact word_sub (b := 1) (by omega) (by unfold wordSize; omega)

/-- The value of a code where nothing wraps. -/
theorem unrecenter_eq (small : reference < 2 ^ 31) (code : Nat) :
    unrecenter reference code =
      if 2 * reference < code then code
      else if code % 2 = 0 then code / 2 + reference
      else reference - (code + 1) / 2 := by
  unfold unrecenter
  rw [twice_of_lt small]
  split
  · rfl
  next near =>
    split
    next even =>
      have fits := word_of_fits (n := (code : Int) / 2 + reference) (by omega)
        (by unfold wordSize; omega)
      omega
    next odd =>
      have fits := word_of_fits (n := (reference : Int) - (code + 1) / 2) (by omega)
        (by unfold wordSize; omega)
      omega

/-- A number is got back from its distance code, as long as no doubled distance wraps. -/
theorem unrecenter_recenter (small : reference < 2 ^ 31) (value : Nat) :
    unrecenter reference (recenter reference value) = value := by
  rw [unrecenter_eq small, recenter_eq small]
  split_ifs <;> omega

/-- A code is got back from the number that it is read as. -/
theorem recenter_unrecenter (small : reference < 2 ^ 31) (code : Nat) :
    recenter reference (unrecenter reference code) = code := by
  rw [recenter_eq small, unrecenter_eq small]
  split_ifs <;> omega

/-- A code leads no further than itself, or than twice the reference. -/
theorem unrecenter_le (small : reference < 2 ^ 31) (code : Nat) :
    unrecenter reference code ≤ max code (2 * reference) := by
  rw [unrecenter_eq small]
  split_ifs <;> omega

end Recenter

section Below

variable {size reference value code : Nat}

/-- The code of a value below a size where nothing wraps. -/
theorem recenterBelow_eq (small : reference < 2 ^ 31) (reference_lt : reference < size)
    (value_lt : value < size) :
    recenterBelow size reference value =
      if 2 * reference ≤ size then recenter reference value
      else recenter (size - 1 - reference) (size - 1 - value) := by
  unfold recenterBelow
  rw [twice_of_lt small]
  split
  · rfl
  next upper =>
    have word_size : size - 1 < wordSize := by
      unfold wordSize
      omega
    have last : ((size - 1 : Nat) : Int) = size - 1 := by omega
    rw [← last, word_sub (by omega) word_size, word_sub (by omega) word_size]

/-- The value below a size of a code where nothing wraps. -/
theorem unrecenterBelow_eq (small : reference < 2 ^ 31) (reference_lt : reference < size)
    (code_lt : code < size) :
    unrecenterBelow size reference code =
      if 2 * reference ≤ size then unrecenter reference code
      else size - 1 - unrecenter (size - 1 - reference) code := by
  unfold unrecenterBelow
  rw [twice_of_lt small]
  split
  · rfl
  next upper =>
    have word_size : size - 1 < wordSize := by
      unfold wordSize
      omega
    have last : ((size - 1 : Nat) : Int) = size - 1 := by omega
    have folded : word ((size - 1 : Nat) - reference) = size - 1 - reference :=
      word_sub (by omega) word_size
    have bounded := unrecenter_le (show size - 1 - reference < 2 ^ 31 by omega) code
    rw [← last, folded, word_sub (by omega) word_size]

/-- Codes of numbers below a size are below it too. -/
theorem recenterBelow_lt (small : reference < 2 ^ 31) (reference_lt : reference < size)
    (value_lt : value < size) : recenterBelow size reference value < size := by
  rw [recenterBelow_eq small reference_lt value_lt]
  split
  next lower =>
    rw [recenter_eq small]
    split_ifs <;> omega
  next upper =>
    rw [recenter_eq (by omega)]
    split_ifs <;> omega

/-- The numbers that codes below a size are read as are below it too. -/
theorem unrecenterBelow_lt (small : reference < 2 ^ 31) (reference_lt : reference < size)
    (code_lt : code < size) : unrecenterBelow size reference code < size := by
  rw [unrecenterBelow_eq small reference_lt code_lt]
  split
  next lower =>
    rw [unrecenter_eq small]
    split_ifs <;> omega
  next upper => omega

/-- A number below a size is got back from its code. -/
theorem unrecenterBelow_recenterBelow (small : reference < 2 ^ 31) (reference_lt : reference < size)
    (value_lt : value < size) :
    unrecenterBelow size reference (recenterBelow size reference value) = value := by
  have code_lt := recenterBelow_lt small reference_lt value_lt
  rw [unrecenterBelow_eq small reference_lt code_lt, recenterBelow_eq small reference_lt value_lt]
  split
  next lower => exact unrecenter_recenter small value
  next upper =>
    rw [unrecenter_recenter (by omega)]
    omega

/-- A code below a size is got back from its number. -/
theorem recenterBelow_unrecenterBelow (small : reference < 2 ^ 31) (reference_lt : reference < size)
    (code_lt : code < size) :
    recenterBelow size reference (unrecenterBelow size reference code) = code := by
  have value_lt := unrecenterBelow_lt small reference_lt code_lt
  rw [recenterBelow_eq small reference_lt value_lt, unrecenterBelow_eq small reference_lt code_lt]
  split
  next lower => exact recenter_unrecenter small code
  next upper =>
    have bounded := unrecenter_le (show size - 1 - reference < 2 ^ 31 by omega) code
    rw [Nat.sub_sub_self (by omega)]
    exact recenter_unrecenter (by omega) code

end Below

end TileCoder.Code
