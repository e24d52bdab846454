import Mathlib.Tactic
import TileCoder.Proofs.Code.Recenter
import TileCoder.Proofs.Range.Safety

/-!
# Recentring at the top of the word

Recentring doubles words, and twice a word is a word only below `2 ^ 31`. `recenterBelow?` and
`unrecenterBelow?` are versions in which every sum, difference and double is checked: with a
reference below `2 ^ 31` they give what the unchecked ones give, from there on they give nothing
(`exact_iff`).

A larger reference is taken for one in the lower half of the numbers, as its double has wrapped. Most
values are still got back (`Recovered.unrecenterBelow_eq`), but not those below `2 ^ 31` that do not lie
above what is left of the double: no code is read as one of them (`unrecenterBelow_ne_of_lost`), or the
code that it has is that of another value (`unrecenterBelow_of_lost`).
-/

namespace TileCoder.Code

open TileCoder.Range (minus? minus?_of_le)

/-! ## The checked operations -/

/-- A sum, as long as it is a word. -/
def plus? (a b : Nat) : Option Nat := if a + b < wordSize then some (a + b) else none

/-- Twice a word, as long as that is a word. -/
def twice? (n : Nat) : Option Nat := plus? n n

/-- `recenter` with its arithmetic checked. -/
def recenter? (reference value : Nat) : Option Nat := do
  let double ← twice? reference
  if double < value then some value
  else if reference ≤ value then twice? (← minus? value reference)
  else minus? (← twice? (← minus? reference value)) 1

/-- `unrecenter` with its arithmetic checked. -/
def unrecenter? (reference code : Nat) : Option Nat := do
  let double ← twice? reference
  if double < code then some code
  else if code % 2 = 0 then plus? (code / 2) reference
  else minus? reference ((← plus? code 1) / 2)

/-- `recenterBelow` with its arithmetic checked. -/
def recenterBelow? (size reference value : Nat) : Option Nat := do
  let double ← twice? reference
  if double ≤ size then recenter? reference value
  else
    let last ← minus? size 1
    recenter? (← minus? last reference) (← minus? last value)

/-- `unrecenterBelow` with its arithmetic checked. -/
def unrecenterBelow? (size reference code : Nat) : Option Nat := do
  let double ← twice? reference
  if double ≤ size then unrecenter? reference code
  else
    let last ← minus? size 1
    minus? last (← unrecenter? (← minus? last reference) code)

theorem plus?_of_lt {a b : Nat} (fits : a + b < wordSize) : plus? a b = some (a + b) := if_pos fits

theorem twice?_of_lt {n : Nat} (small : n < 2 ^ 31) : twice? n = some (twice n) := by
  have fits : n + n < wordSize := by
    unfold wordSize
    omega
  rw [twice?, plus?_of_lt fits, twice_of_lt small, Nat.two_mul]

theorem twice?_of_le {n : Nat} (large : 2 ^ 31 ≤ n) : twice? n = none := by
  have wraps : ¬n + n < wordSize := by
    unfold wordSize
    omega
  exact if_neg wraps

/-- Nothing wraps where the reference is below `2 ^ 31`. -/
theorem recenter?_eq {reference value : Nat} (small : reference < 2 ^ 31) :
    recenter? reference value = some (recenter reference value) := by
  rw [recenter_eq small, recenter?, twice?_of_lt small, twice_of_lt small]
  simp only [Option.bind_eq_bind, Option.bind_some]
  split
  · rfl
  next near =>
    split
    next above =>
      rw [minus?_of_le above, Option.bind_some, twice?_of_lt (by omega), twice_of_lt (by omega)]
    next below =>
      rw [minus?_of_le (by omega), Option.bind_some, twice?_of_lt (by omega), Option.bind_some,
        twice_of_lt (by omega)]
      exact minus?_of_le (by omega)

theorem unrecenter?_eq {reference code : Nat} (small : reference < 2 ^ 31) :
    unrecenter? reference code = some (unrecenter reference code) := by
  rw [unrecenter_eq small, unrecenter?, twice?_of_lt small, twice_of_lt small]
  simp only [Option.bind_eq_bind, Option.bind_some]
  split
  · rfl
  next near =>
    split
    next even =>
      refine plus?_of_lt ?_
      unfold wordSize
      omega
    next odd =>
      have fits : code + 1 < wordSize := by
        unfold wordSize
        omega
      rw [plus?_of_lt fits, Option.bind_some]
      exact minus?_of_le (by omega)

section Below

variable {size reference value code : Nat}

theorem recenterBelow?_eq (small : reference < 2 ^ 31) (reference_lt : reference < size)
    (value_lt : value < size) :
    recenterBelow? size reference value = some (recenterBelow size reference value) := by
  rw [recenterBelow_eq small reference_lt value_lt, recenterBelow?, twice?_of_lt small,
    twice_of_lt small]
  simp only [Option.bind_eq_bind, Option.bind_some]
  split
  next lower => exact recenter?_eq small
  next upper =>
    rw [minus?_of_le (by omega), Option.bind_some, minus?_of_le (by omega), Option.bind_some,
      minus?_of_le (by omega), Option.bind_some]
    exact recenter?_eq (by omega)

theorem unrecenterBelow?_eq (small : reference < 2 ^ 31) (reference_lt : reference < size)
    (code_lt : code < size) :
    unrecenterBelow? size reference code = some (unrecenterBelow size reference code) := by
  rw [unrecenterBelow_eq small reference_lt code_lt, unrecenterBelow?, twice?_of_lt small,
    twice_of_lt small]
  simp only [Option.bind_eq_bind, Option.bind_some]
  split
  next lower => exact unrecenter?_eq small
  next upper =>
    have folded : size - 1 - reference < 2 ^ 31 := by omega
    have bounded := unrecenter_le folded code
    rw [minus?_of_le (by omega), Option.bind_some, minus?_of_le (by omega), Option.bind_some,
      unrecenter?_eq folded, Option.bind_some]
    exact minus?_of_le (by omega)

/-! ## What wraps -/

/-- Neither the code of the value nor what is read from it needs a number that is not a word. -/
def Exact (size reference value : Nat) : Prop :=
  ∃ code, recenterBelow? size reference value = some code ∧
    unrecenterBelow? size reference code = some value

theorem exact_iff (reference_lt : reference < size) (value_lt : value < size) :
    Exact size reference value ↔ reference < 2 ^ 31 := by
  constructor
  · rintro ⟨code, recentred, -⟩
    by_contra large
    rw [recenterBelow?, twice?_of_le (Nat.le_of_not_lt large)] at recentred
    cases recentred
  · intro small
    have code_lt := recenterBelow_lt small reference_lt value_lt
    refine ⟨_, recenterBelow?_eq small reference_lt value_lt, ?_⟩
    rw [unrecenterBelow?_eq small reference_lt code_lt, unrecenterBelow_recenterBelow small reference_lt value_lt]

/-- A value is got back around a reference: the double of the reference does not wrap, or the value
lies above what is left of the double, or in the upper half of the words. -/
def Recovered (reference value : Nat) : Prop :=
  reference < 2 ^ 31 ∨ 2 * reference < wordSize + value ∨ 2 ^ 31 ≤ value

instance (reference value : Nat) : Decidable (Recovered reference value) :=
  inferInstanceAs (Decidable (_ ∨ _))

theorem twice_of_le {n : Nat} (large : 2 ^ 31 ≤ n) (word : n < wordSize) :
    twice n = 2 * n - wordSize := by
  unfold twice wordSize at *
  omega

/-- What is left of a double that has wrapped lies below the number, so that a large reference is
taken for one in the lower half. -/
theorem twice_le_of_le (large : 2 ^ 31 ≤ reference) (reference_lt : reference < size)
    (word : size ≤ wordSize) : twice reference ≤ size := by
  rw [twice_of_le large (by omega)]
  omega

/-- The code of a value that is got back around a large reference. -/
theorem recenterBelow_of_le (large : 2 ^ 31 ≤ reference) (reference_lt : reference < size)
    (value_lt : value < size) (word : size ≤ wordSize) (recovered : Recovered reference value) :
    recenterBelow size reference value =
      if twice reference < value then value else 2 * (reference - value) - 1 := by
  have wrapped := twice_of_le large (Nat.lt_of_lt_of_le reference_lt word)
  rw [recenterBelow, if_pos (twice_le_of_le large reference_lt word), recenter]
  unfold Recovered at recovered
  split
  · rfl
  next near =>
    unfold wordSize at *
    rw [if_neg (by omega), twice_of_lt (by omega)]
    exact word_sub (b := 1) (by omega) (by unfold wordSize; omega)

theorem Recovered.recenterBelow_lt (recovered : Recovered reference value)
    (reference_lt : reference < size) (value_lt : value < size) (word : size ≤ wordSize) :
    recenterBelow size reference value < size := by
  by_cases small : reference < 2 ^ 31
  · exact Code.recenterBelow_lt small reference_lt value_lt
  · have large := Nat.le_of_not_lt small
    have wrapped := twice_of_le large (Nat.lt_of_lt_of_le reference_lt word)
    rw [recenterBelow_of_le large reference_lt value_lt word recovered]
    unfold Recovered at recovered
    unfold wordSize at *
    split <;> omega

theorem Recovered.unrecenterBelow_eq (recovered : Recovered reference value)
    (reference_lt : reference < size) (value_lt : value < size) (word : size ≤ wordSize) :
    unrecenterBelow size reference (recenterBelow size reference value) = value := by
  by_cases small : reference < 2 ^ 31
  · exact unrecenterBelow_recenterBelow small reference_lt value_lt
  · have large := Nat.le_of_not_lt small
    have reference_word := Nat.lt_of_lt_of_le reference_lt word
    have wrapped := twice_of_le large reference_word
    rw [recenterBelow_of_le large reference_lt value_lt word recovered, unrecenterBelow,
      if_pos (twice_le_of_le large reference_lt word), unrecenter]
    unfold Recovered at recovered
    split
    · rfl
    next near =>
      unfold wordSize at *
      rw [if_neg (by omega), if_neg (by omega)]
      have fits := word_of_fits
        (n := (reference : Int) - ((2 * (reference - value) - 1 : Nat) + 1) / 2) (by omega)
        (by unfold wordSize; omega)
      omega

/-- Of the other values, those that are not far from the reference have no code at all. -/
theorem unrecenterBelow_ne_of_lost (lost : ¬Recovered reference value)
    (near : reference ≤ value + 2 ^ 31) (reference_lt : reference < size) (word : size ≤ wordSize)
    {code : Nat} (code_lt : code < size) : unrecenterBelow size reference code ≠ value := by
  unfold Recovered at lost
  have wrapped := twice_of_le (by omega) (Nat.lt_of_lt_of_le reference_lt word)
  rw [unrecenterBelow, if_pos (twice_le_of_le (by omega) reference_lt word), unrecenter]
  have sum := word_cast ((code : Int) / 2 + reference)
  have difference := word_cast ((reference : Int) - (code + 1) / 2)
  unfold wordSize at *
  split
  · omega
  · split <;> omega

/-- Those that are far from it have codes, of values in the upper half of the words. -/
theorem unrecenterBelow_of_lost (lost : ¬Recovered reference value)
    (far : value + 2 ^ 31 < reference) (reference_lt : reference < size) (word : size ≤ wordSize) :
    recenterBelow size reference value < size ∧
      unrecenterBelow size reference (recenterBelow size reference value) = value + 2 ^ 31 := by
  unfold Recovered at lost
  have reference_word := Nat.lt_of_lt_of_le reference_lt word
  have wrapped := twice_of_le (by omega) reference_word
  have lower := twice_le_of_le (by omega) reference_lt word
  have code_eq : recenterBelow size reference value = 2 * (reference - value) - wordSize - 1 := by
    have distance := twice_of_le (n := reference - value) (by omega) (by omega)
    have fits := word_of_fits (n := (twice (reference - value) : Int) - 1)
      (by unfold wordSize at *; omega) (by unfold wordSize at *; omega)
    rw [recenterBelow, if_pos lower, recenter, if_neg (by unfold wordSize at *; omega),
      if_neg (by omega)]
    omega
  have middle := word_of_fits
    (n := (reference : Int) - ((2 * (reference - value) - wordSize - 1 : Nat) + 1) / 2)
    (by unfold wordSize at *; omega) (by unfold wordSize at *; omega)
  rw [code_eq, unrecenterBelow, if_pos lower, unrecenter, if_neg (by unfold wordSize at *; omega),
    if_neg (by unfold wordSize at *; omega)]
  unfold wordSize at *
  omega

end Below

end TileCoder.Code
