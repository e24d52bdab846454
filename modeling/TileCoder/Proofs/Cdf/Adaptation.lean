import TileCoder.Proofs.Cdf.Codable

/-!
# Mass under adaptation

A row adapts value by value, and each value is rounded for itself. Two values that move the same way
come closer or keep their distance (`lower_sub_le`, `raise_sub_le`): the one that has farther to go
loses at least as much to its rounding. So of all symbols only the coded one can gain mass, whose
two values move apart. A value that is between the ends of the scale stays there (`inner_update`),
which leaves the first and the last symbol of a trained row some mass for ever.
-/

namespace TileCoder.Cdf

/-! ## Distances -/

theorem lower_sub_le (rate : Nat) {a b : Nat} (order : a ≤ b) :
    lower rate b - lower rate a ≤ b - a := by
  have steps : a / 2 ^ rate ≤ b / 2 ^ rate := Nat.div_le_div_right order
  have small := Nat.div_le_self a (2 ^ rate)
  unfold lower
  omega

theorem raise_sub_le (rate : Nat) {a b : Nat} (order : a ≤ b) :
    raise rate b - raise rate a ≤ b - a := by
  have steps : (top - b) / 2 ^ rate ≤ (top - a) / 2 ^ rate :=
    Nat.div_le_div_right (Nat.sub_le_sub_left order top)
  unfold raise
  omega

theorem lower_pos {rate value : Nat} (moves : 0 < rate) (positive : 0 < value) :
    0 < lower rate value :=
  Nat.sub_pos_of_lt (Nat.div_lt_self positive (Nat.one_lt_two_pow moves.ne'))

/-! ## The two values of a symbol -/

/-- The top stays where it is, like a value that rises. -/
theorem before_update (cdf : Cdf) (symbol : Nat) {s : Nat} (inside : s < cdf.arity) :
    (cdf.update symbol).before s =
      if symbol < s then lower cdf.rate (cdf.before s) else raise cdf.rate (cdf.before s) := by
  unfold arity at inside
  cases s with
  | zero => simp [before, raise]
  | succ s =>
      rw [before, before, getD_update cdf symbol (by omega)]
      simp only [Nat.lt_succ_iff]

namespace Codable

variable {cdf : Cdf} {symbol : Nat}

/-- The terminal stays where it is, like a value that falls. -/
theorem value_update (codable : cdf.Codable) (coded : symbol < cdf.arity) {s : Nat}
    (inside : s < cdf.arity) :
    (cdf.update symbol).getD s 0 =
      if symbol ≤ s then lower cdf.rate (cdf.getD s 0) else raise cdf.rate (cdf.getD s 0) := by
  have long := codable.three_le
  unfold arity at coded inside
  by_cases last : s = cdf.length - 2
  · rw [if_pos (by omega), last, terminal_update cdf symbol long, codable.getD_terminal]
    simp [lower]
  · exact getD_update cdf symbol (by omega)

theorem value_le_before (codable : cdf.Codable) {s : Nat} (inside : s < cdf.arity) :
    cdf.getD s 0 ≤ cdf.before s := by
  unfold arity at inside
  cases s with
  | zero => exact codable.first_lt.le
  | succ s => exact codable.falling s (by omega)

/-! ## Masses -/

theorem mass_le_update (codable : cdf.Codable) (coded : symbol < cdf.arity) :
    cdf.mass symbol ≤ (cdf.update symbol).mass symbol := by
  unfold mass
  rw [before_update cdf symbol coded, if_neg (Nat.lt_irrefl symbol),
    codable.value_update coded coded, if_pos (Nat.le_refl symbol)]
  exact tsub_le_tsub (le_raise _ _) (lower_le _ _)

theorem mass_update_le (codable : cdf.Codable) (coded : symbol < cdf.arity) {other : Nat}
    (inside : other < cdf.arity) (different : other ≠ symbol) :
    (cdf.update symbol).mass other ≤ cdf.mass other := by
  have order := codable.value_le_before inside
  unfold mass
  rw [before_update cdf symbol inside, codable.value_update coded inside]
  rcases Nat.lt_or_gt_of_ne different with front | behind
  · rw [if_neg (Nat.not_lt_of_gt front), if_neg (Nat.not_le_of_gt front)]
    exact raise_sub_le _ order
  · rw [if_pos behind, if_pos (Nat.le_of_lt behind)]
    exact lower_sub_le _ order

/-- No mass is lost. -/
theorem sum_mass (codable : cdf.Codable) : ∑ s ∈ Finset.range cdf.arity, cdf.mass s = top := by
  have long := codable.three_le
  have below := codable.first_lt
  have terminal := codable.getD_terminal
  have behind := codable.falling.sum_mass (n := cdf.length - 2) (by omega)
  rw [show cdf.length - 2 + 1 = cdf.arity by unfold arity; omega] at behind
  have first : cdf.mass 0 = top - cdf.getD 0 0 := rfl
  rw [Finset.range_eq_Ico, Finset.sum_eq_sum_Ico_succ_bot (by unfold arity; omega), first,
    Nat.zero_add]
  omega

end Codable

/-! ## Values between the ends -/

theorem inner_update (cdf : Cdf) (symbol : Nat) {i : Nat} (inside : i + 2 < cdf.length)
    (positive : 0 < cdf.getD i 0) (below : cdf.getD i 0 < top) :
    0 < (cdf.update symbol).getD i 0 ∧ (cdf.update symbol).getD i 0 < top := by
  rw [getD_update cdf symbol inside]
  split
  · exact ⟨lower_pos cdf.rate_pos positive, Nat.lt_of_le_of_lt (lower_le _ _) below⟩
  · exact ⟨Nat.lt_of_lt_of_le positive (le_raise _ _), raise_lt _ cdf.rate_pos below⟩

/-- A codable row of which no value but the terminal is at an end of the scale. -/
structure Inner (cdf : Cdf) : Prop where
  codable : cdf.Codable
  positive : ∀ i, i + 2 < cdf.length → 0 < cdf.getD i 0

namespace Inner

variable {cdf : Cdf}

theorem update (inner : cdf.Inner) (symbol : Nat) : (cdf.update symbol).Inner := by
  refine ⟨inner.codable.update symbol, ?_⟩
  intro i inside
  rw [length_update] at inside
  exact (inner_update cdf symbol inside (inner.positive i inside)
    (inner.codable.value_lt (by omega))).1

theorem updateAll (inner : cdf.Inner) (symbols : List Nat) : (cdf.updateAll symbols).Inner := by
  induction symbols generalizing cdf with
  | nil => exact inner
  | cons symbol rest ih => exact ih (inner.update symbol)

theorem mass_first_pos (inner : cdf.Inner) : 0 < cdf.mass 0 :=
  Nat.sub_pos_of_lt inner.codable.first_lt

theorem mass_last_pos (inner : cdf.Inner) : 0 < cdf.mass (cdf.arity - 1) := by
  have long := inner.codable.three_le
  have positive := inner.positive (cdf.length - 3) (by omega)
  have last : cdf.arity - 1 = cdf.length - 3 + 1 := by
    unfold arity
    omega
  rw [last, mass, before, show cdf.length - 3 + 1 = cdf.length - 2 by omega,
    inner.codable.getD_terminal]
  exact positive

end Inner

theorem Strict.inner {cdf : Cdf} (strict : cdf.Strict) : cdf.Inner := by
  have codable := strict.codable
  have terminal := codable.getD_terminal
  refine ⟨codable, ?_⟩
  intro i inside
  have falls := (List.pairwise_cons.mp strict.2).2
  have order := List.pairwise_iff_getElem.mp falls i (cdf.length - 2)
    (by rw [List.length_dropLast]; omega) (by rw [List.length_dropLast]; omega) (by omega)
  rw [List.getElem_dropLast, List.getElem_dropLast] at order
  rw [List.getD_eq_getElem _ _ (by omega)] at terminal ⊢
  omega

@[simp] theorem arity_updateAll (cdf : Cdf) (symbols : List Nat) :
    (cdf.updateAll symbols).arity = cdf.arity := by
  induction symbols generalizing cdf with
  | nil => rfl
  | cons symbol rest ih =>
      refine (ih (cdf.update symbol)).trans ?_
      unfold arity
      rw [length_update]

/-- **Adaptation moves mass to the coded symbol alone.** When a codable row adapts to a symbol, the
mass of the symbol does not fall, that of no other symbol rises, the masses make up the whole scale
as before, and values between the ends of the scale stay between them. So whatever a trained row
adapts to, its first and its last symbol keep some mass. -/
theorem mass_moves_to_coded :
    (∀ cdf : Cdf, cdf.Codable → ∀ symbol < cdf.arity,
        let adapted := cdf.update symbol
        cdf.mass symbol ≤ adapted.mass symbol ∧
          (∀ other < cdf.arity, other ≠ symbol → adapted.mass other ≤ cdf.mass other) ∧
          ∑ s ∈ Finset.range cdf.arity, adapted.mass s = top ∧
          ∀ i, i + 2 < cdf.length → 0 < cdf.getD i 0 → cdf.getD i 0 < top →
            0 < adapted.getD i 0 ∧ adapted.getD i 0 < top) ∧
      ∀ cdf : Cdf, cdf.Strict → ∀ symbols : List Nat,
        0 < (cdf.updateAll symbols).mass 0 ∧ 0 < (cdf.updateAll symbols).mass (cdf.arity - 1) := by
  refine ⟨?_, ?_⟩
  · intro cdf codable symbol coded adapted
    have arity_eq : adapted.arity = cdf.arity := congrArg (· - 1) (length_update cdf symbol)
    refine ⟨codable.mass_le_update coded, ?_, ?_, ?_⟩
    · intro other inside different
      exact codable.mass_update_le coded inside different
    · rw [← arity_eq]
      exact (codable.update symbol).sum_mass
    · intro i inside positive below
      exact inner_update cdf symbol inside positive below
  · intro cdf strict symbols
    have inner := strict.inner.updateAll symbols
    refine ⟨inner.mass_first_pos, ?_⟩
    rw [← arity_updateAll cdf symbols]
    exact inner.mass_last_pos

/-- A row with a full counter adapts to a symbol that had no mass; a row with the least mass at both
ends adapts, again and again, to what is between them. -/
theorem mass_moves_to_coded_narrow :
    let old : Cdf := [32767, 20000, 20000, 0, 32]
    let narrow : Cdf := [32767, 20000, 1, 0, 0]
    let between := List.replicate 40 1 ++ List.replicate 40 2
    (old.mass 2 ≤ (old.update 2).mass 2 ∧ (old.update 2).mass 0 ≤ old.mass 0 ∧
        ∑ s ∈ Finset.range old.arity, (old.update 2).mass s = top ∧
        0 < (old.update 2).getD 0 0 ∧ (old.update 2).getD 0 0 < top) ∧
      0 < (narrow.updateAll between).mass 0 ∧
      0 < (narrow.updateAll between).mass (narrow.arity - 1) := by
  intro old narrow between
  obtain ⟨grows, shrinks, whole, inner⟩ := mass_moves_to_coded.1 old (by decide) 2 (by decide)
  exact ⟨⟨grows, shrinks 0 (by decide) (by decide), whole,
      inner 0 (by decide) (by decide) (by decide)⟩,
    mass_moves_to_coded.2 narrow (by decide) between⟩

end TileCoder.Cdf
