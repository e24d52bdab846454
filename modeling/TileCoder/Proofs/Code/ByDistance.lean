import Mathlib.Data.Nat.Dist
import Mathlib.Data.Set.Function
import Mathlib.Order.Interval.Set.Defs
import Mathlib.Tactic
import TileCoder.Proofs.Code.Overflow
import TileCoder.Proofs.Recoding.Blocks

/-!
# Numbering by distance

A number near its reference gets a small code, in two places: words are recentred
(`Code.recenterBelow`) and segments are interleaved (`Segment.interleave`). Both are the same kind of
numbering (`ByDistance`): all numbers below a size are codes of the numbers below it, each of one, and
what is nearer to the reference has the smaller code.

The arithmetic of segments is that of signed words. `Segment.interleave?` and `Segment.deinterleave?`
check every number on the way, and up to a size of `2 ^ 29` they give what the unchecked ones give.
-/

namespace TileCoder

/-- `code` is a permutation of the numbers with smaller codes for those that are less distant, and
`decode` undoes it. -/
structure ByDistance {α : Type} [LT α] (numbers : Set α) (distance : α → Nat)
    (code decode : α → α) : Prop where
  permutes : Set.BijOn code numbers numbers
  inverse : Set.InvOn decode code numbers numbers
  nearer : ∀ v ∈ numbers, ∀ w ∈ numbers, distance v < distance w → code v < code w

/-- Codes that are got back on both sides permute the numbers. -/
theorem ByDistance.of_inverse {α : Type} [LT α] {numbers : Set α} {distance : α → Nat}
    {code decode : α → α} (codes : Set.MapsTo code numbers numbers)
    (decodes : Set.MapsTo decode numbers numbers)
    (inverse : Set.InvOn decode code numbers numbers)
    (nearer : ∀ v ∈ numbers, ∀ w ∈ numbers, distance v < distance w → code v < code w) :
    ByDistance numbers distance code decode :=
  ⟨inverse.bijOn codes decodes, inverse, nearer⟩

/-! ## Words -/

namespace Code

section Recenter

variable {reference nearer farther size : Nat}

/-- Values on both sides come in turn, the lower one first, before those that are further away. -/
theorem recenter_lt_recenter (small : reference < 2 ^ 31)
    (order : Nat.dist nearer reference < Nat.dist farther reference) :
    recenter reference nearer < recenter reference farther := by
  unfold Nat.dist at order
  rw [recenter_eq small, recenter_eq small]
  split_ifs <;> omega

/-- The same below a size, where the upper half is folded back. -/
theorem recenterBelow_lt_recenterBelow (small : reference < 2 ^ 31)
    (reference_lt : reference < size) (nearer_lt : nearer < size) (farther_lt : farther < size)
    (order : Nat.dist nearer reference < Nat.dist farther reference) :
    recenterBelow size reference nearer < recenterBelow size reference farther := by
  rw [recenterBelow_eq small reference_lt nearer_lt, recenterBelow_eq small reference_lt farther_lt]
  split
  next lower => exact recenter_lt_recenter small order
  next upper =>
    -- seen from the other end, all numbers are as far from each other as before
    have mirrored {n : Nat} (below : n < size) :
        Nat.dist (size - 1 - n) (size - 1 - reference) = Nat.dist n reference := by
      unfold Nat.dist
      omega
    apply recenter_lt_recenter (by omega)
    rwa [mirrored nearer_lt, mirrored farther_lt]

end Recenter

/-- **Recentring is a permutation by distance.** Below a size of at most `2 ^ 31`, the codes around
any reference are the numbers themselves in another order, the nearer ones first, and they are
decoded again; no number on the way leaves the words. -/
theorem recenterBelow_byDistance {size reference : Nat} (small : size ≤ 2 ^ 31)
    (reference_lt : reference < size) :
    ByDistance (Set.Iio size) (Nat.dist · reference) (recenterBelow size reference)
        (unrecenterBelow size reference) ∧
      ∀ n < size, recenterBelow? size reference n = some (recenterBelow size reference n) ∧
        unrecenterBelow? size reference n = some (unrecenterBelow size reference n) := by
  have reference_small : reference < 2 ^ 31 := by omega
  refine ⟨.of_inverse ?codes ?decodes ⟨?left, ?right⟩ ?nearer, ?exact⟩
  case codes => exact fun value value_lt => recenterBelow_lt reference_small reference_lt value_lt
  case decodes => exact fun code code_lt => unrecenterBelow_lt reference_small reference_lt code_lt
  case left =>
    exact fun value value_lt => unrecenterBelow_recenterBelow reference_small reference_lt value_lt
  case right =>
    exact fun code code_lt => recenterBelow_unrecenterBelow reference_small reference_lt code_lt
  case nearer =>
    exact fun v v_lt w w_lt order =>
      recenterBelow_lt_recenterBelow reference_small reference_lt v_lt w_lt order
  case exact =>
    exact fun n n_lt => ⟨recenterBelow?_eq reference_small reference_lt n_lt,
      unrecenterBelow?_eq reference_small reference_lt n_lt⟩

/-- The largest size, around a reference in its upper half. -/
theorem recenterBelow_byDistance_largest :
    2 ^ 31 ≤ 2 ^ 31 ∧ 2 ^ 31 - 3 < 2 ^ 31 ∧
      ByDistance (Set.Iio (2 ^ 31)) (Nat.dist · (2 ^ 31 - 3)) (recenterBelow (2 ^ 31) (2 ^ 31 - 3))
        (unrecenterBelow (2 ^ 31) (2 ^ 31 - 3)) :=
  ⟨Nat.le_refl _, by decide, (recenterBelow_byDistance (Nat.le_refl _) (by decide)).1⟩

end Code

/-! ## Segments -/

namespace Segment

/-- A number, as long as it is a signed word. -/
def signed? (n : Int) : Option Int := if -2 ^ 31 ≤ n ∧ n < 2 ^ 31 then some n else none

theorem signed?_of_within {n : Int} (above : -2 ^ 31 ≤ n) (below : n < 2 ^ 31) :
    signed? n = some n := if_pos ⟨above, below⟩

/-- `interleave` with its arithmetic checked. -/
def interleave? (value reference size : Int) : Option Int := do
  let last ← signed? (size - 1)
  if reference = 0 then some value
  else if last ≤ reference then signed? ((← signed? ((← signed? (-value)) + size)) - 1)
  else
    let distance ← signed? (value - reference)
    let inTurn :=
      if 0 < distance then do signed? ((← signed? (2 * distance)) - 1)
      else do signed? (2 * (← signed? (-distance)))
    if (← signed? (2 * reference)) < size then
      if distance.natAbs ≤ reference then inTurn else some value
    else if distance.natAbs < (← signed? (size - reference)) then inTurn
    else signed? ((← signed? (size - value)) - 1)

/-- `deinterleave` with its arithmetic checked. -/
def deinterleave? (code reference size : Int) : Option Int := do
  let last ← signed? (size - 1)
  if reference = 0 then some code
  else if last ≤ reference then signed? ((← signed? (size - code)) - 1)
  else
    let double ← signed? (2 * reference)
    let both ←
      if double < size then some double
      else do signed? (2 * (← signed? ((← signed? (size - reference)) - 1)))
    if code ≤ both then
      if code % 2 = 0 then signed? (reference - code / 2)
      else signed? (reference + (← signed? (code + 1)) / 2)
    else if double < size then some code
    else signed? (size - (← signed? (code + 1)))

section Interleave

variable {value nearer farther code reference size : Int}

/-- Up to this size nothing on the way leaves the signed words. -/
theorem interleave?_eq (small : size ≤ 2 ^ 29) (value_nonneg : 0 ≤ value) (value_lt : value < size)
    (reference_nonneg : 0 ≤ reference) (reference_lt : reference < size) :
    interleave? value reference size = some (interleave value reference size) := by
  unfold interleave? interleave
  simp (disch := omega) only [signed?_of_within, Option.bind_eq_bind, Option.bind_some]
  split_ifs <;> rw [Option.some.injEq] <;> omega

theorem deinterleave?_eq (small : size ≤ 2 ^ 29) (code_nonneg : 0 ≤ code) (code_lt : code < size)
    (reference_nonneg : 0 ≤ reference) (reference_lt : reference < size) :
    deinterleave? code reference size = some (deinterleave code reference size) := by
  unfold deinterleave? deinterleave
  simp (disch := omega) only [signed?_of_within, Option.bind_eq_bind, Option.bind_some]
  split_ifs <;> rw [Option.some.injEq] <;> omega

/-- Every code below the size is that of a number below it. -/
theorem deinterleave_lt (code_nonneg : 0 ≤ code) (code_lt : code < size)
    (reference_nonneg : 0 ≤ reference) (reference_lt : reference < size) :
    0 ≤ deinterleave code reference size ∧ deinterleave code reference size < size := by
  unfold deinterleave
  dsimp only
  split_ifs <;> omega

theorem interleave_lt_interleave (nearer_nonneg : 0 ≤ nearer) (nearer_lt : nearer < size)
    (farther_nonneg : 0 ≤ farther) (farther_lt : farther < size) (reference_lt : reference < size)
    (order : (nearer - reference).natAbs < (farther - reference).natAbs) :
    interleave nearer reference size < interleave farther reference size := by
  unfold interleave
  dsimp only
  split_ifs <;> omega

/-- The reference itself has the least code. -/
theorem interleave_self (reference_nonneg : 0 ≤ reference) (reference_lt : reference < size) :
    interleave reference reference size = 0 := by
  unfold interleave
  dsimp only
  split_ifs <;> omega

end Interleave

/-- **Interleaving is a permutation by distance.** Up to a size of `2 ^ 29`, the codes of segments
around any reference are the numbers themselves in another order, the reference first and the nearer
ones before those further away, and they are decoded again; no number on the way leaves the signed
words. -/
theorem interleave_byDistance {reference size : Int} (small : size ≤ 2 ^ 29)
    (reference_mem : reference ∈ Set.Ico 0 size) :
    ByDistance (Set.Ico 0 size) (fun n => (n - reference).natAbs) (interleave · reference size)
        (deinterleave · reference size) ∧
      interleave reference reference size = 0 ∧
      ∀ n ∈ Set.Ico 0 size, interleave? n reference size = some (interleave n reference size) ∧
        deinterleave? n reference size = some (deinterleave n reference size) := by
  obtain ⟨reference_nonneg, reference_lt⟩ := reference_mem
  have decodes : Set.MapsTo (deinterleave · reference size) (Set.Ico 0 size) (Set.Ico 0 size) :=
    fun code inside => deinterleave_lt inside.1 inside.2 reference_nonneg reference_lt
  refine ⟨.of_inverse ?codes decodes ⟨?left, ?right⟩ ?nearer,
    interleave_self reference_nonneg reference_lt, ?exact⟩
  case codes => exact fun value inside => interleave_lt inside.1 inside.2 reference_lt
  case left => exact fun value inside => deinterleave_interleave inside.1 inside.2
  case right =>
    exact fun code inside =>
      interleave_deinterleave inside.1 (decodes inside).1 (decodes inside).2 reference_nonneg
  case nearer =>
    exact fun v v_inside w w_inside order =>
      interleave_lt_interleave v_inside.1 v_inside.2 w_inside.1 w_inside.2 reference_lt order
  case exact =>
    exact fun n inside =>
      ⟨interleave?_eq small inside.1 inside.2 reference_nonneg reference_lt,
        deinterleave?_eq small inside.1 inside.2 reference_nonneg reference_lt⟩

/-- An odd number of segments, around a reference in their upper half. -/
theorem interleave_byDistance_odd :
    (7 : Int) ≤ 2 ^ 29 ∧ (4 : Int) ∈ Set.Ico 0 7 ∧
      ByDistance (Set.Ico (0 : Int) 7) (fun n => (n - 4).natAbs) (interleave · 4 7)
        (deinterleave · 4 7) ∧
      [0, 1, 2, 3, 4, 5, 6].map (interleave · 4 7) = [6, 5, 4, 2, 0, 1, 3] := by
  have inside : (4 : Int) ∈ Set.Ico 0 7 := by simp
  exact ⟨by decide, inside, (interleave_byDistance (by decide) inside).1, by decide⟩

end Segment

end TileCoder
