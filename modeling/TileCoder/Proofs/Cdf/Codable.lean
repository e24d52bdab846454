import Mathlib.Algebra.Order.BigOperators.Group.Finset
import Mathlib.Data.List.GetD
import Mathlib.Tactic
import TileCoder.Tile.Writer

/-!
# Codable rows

`Cdf.Codable` says of a row what a coder relies on. Here it is taken apart into facts about single
values (`codable_iff`), and every operation on a row is shown to keep it:

* `Codable.update`: adaptation, to whichever symbol;
* `Codable.resetCount`: the reset of the counter, which also leaves the counter at zero;
* `Codable.gather`: the flag made of the joint mass of some symbols, none of which is the first.
-/

namespace TileCoder.Cdf

/-- The values of a row, terminal included, do not rise. -/
def Falling (cdf : Cdf) : Prop :=
  ∀ i, i + 2 < cdf.length → cdf.getD (i + 1) 0 ≤ cdf.getD i 0

theorem Falling.le {cdf : Cdf} (falling : cdf.Falling) {i j : Nat} (order : i ≤ j)
    (inside : j + 1 < cdf.length) : cdf.getD j 0 ≤ cdf.getD i 0 := by
  induction j, order using Nat.le_induction with
  | base => exact Nat.le_refl _
  | succ j _ ih => exact Nat.le_trans (falling j (by omega)) (ih (by omega))

theorem pairwise_dropLast_iff (cdf : Cdf) :
    cdf.dropLast.Pairwise (· ≥ ·) ↔ cdf.Falling := by
  constructor
  · intro sorted i inside
    have := List.pairwise_iff_getElem.mp sorted i (i + 1) (by simp; omega) (by simp; omega)
      (by omega)
    rw [List.getElem_dropLast, List.getElem_dropLast] at this
    rwa [List.getD_eq_getElem _ _ (by omega), List.getD_eq_getElem _ _ (by omega)]
  · intro falling
    rw [List.pairwise_iff_getElem]
    intro i j hi hj order
    simp only [List.length_dropLast] at hi hj
    rw [List.getElem_dropLast, List.getElem_dropLast]
    have := falling.le (Nat.le_of_lt order) (by omega)
    rwa [List.getD_eq_getElem _ _ (by omega), List.getD_eq_getElem _ _ (by omega)] at this

/-- What is asked of a codable row, value by value. -/
theorem codable_iff {cdf : Cdf} :
    cdf.Codable ↔
      3 ≤ cdf.length ∧ cdf.getD (cdf.length - 2) 0 = 0 ∧ cdf.count ≤ countMax ∧
        cdf.Falling ∧ cdf.getD 0 0 < top := by
  unfold Codable Consistent
  rw [pairwise_dropLast_iff, and_assoc, and_assoc, and_assoc]
  rfl

namespace Codable

variable {cdf : Cdf}

theorem three_le (codable : cdf.Codable) : 3 ≤ cdf.length := codable.1.1

theorem terminal_eq (codable : cdf.Codable) : cdf.terminal = 0 := codable.1.2.1

theorem getD_terminal (codable : cdf.Codable) : cdf.getD (cdf.length - 2) 0 = 0 :=
  codable.terminal_eq

theorem count_le (codable : cdf.Codable) : cdf.count ≤ countMax := codable.1.2.2.1

theorem falling (codable : cdf.Codable) : cdf.Falling := (codable_iff.mp codable).2.2.2.1

theorem first_lt (codable : cdf.Codable) : cdf.getD 0 0 < top := codable.2

/-- No value reaches the top. -/
theorem value_lt (codable : cdf.Codable) {i : Nat} (inside : i + 1 < cdf.length) :
    cdf.getD i 0 < top :=
  Nat.lt_of_le_of_lt (codable.falling.le (Nat.zero_le i) inside) codable.first_lt

end Codable

theorem Strict.codable {cdf : Cdf} (strict : cdf.Strict) : cdf.Codable := by
  obtain ⟨consistent, falling⟩ := strict
  refine ⟨consistent, ?_⟩
  obtain ⟨long, -⟩ := consistent
  match cdf, long with
  | first :: second :: third :: rest, _ =>
      exact (List.pairwise_cons.mp falling).1 first (List.mem_cons_self ..)

theorem checkStrict_eq_ok {cdf : Cdf} : cdf.checkStrict = .ok () ↔ cdf.Strict := by
  unfold checkStrict
  split <;> simp_all

theorem checkCodable_eq_ok {cdf : Cdf} : cdf.checkCodable = .ok () ↔ cdf.Codable := by
  unfold checkCodable
  split <;> simp_all

/-! ## Adaptation -/

theorem getD_mapIdx (f : Nat → Nat → Nat) (cdf : Cdf) {i : Nat} (inside : i < cdf.length) :
    (cdf.mapIdx f).getD i 0 = f i (cdf.getD i 0) := by
  rw [List.getD_eq_getElem _ _ (by simpa using inside), List.getElem_mapIdx,
    List.getD_eq_getElem _ _ inside]

theorem getD_update (cdf : Cdf) (symbol : Nat) {i : Nat} (inside : i + 2 < cdf.length) :
    (cdf.update symbol).getD i 0 =
      if symbol ≤ i then lower cdf.rate (cdf.getD i 0) else raise cdf.rate (cdf.getD i 0) := by
  rw [update, getD_mapIdx _ _ (by omega), if_pos inside]

theorem terminal_update (cdf : Cdf) (symbol : Nat) (long : 3 ≤ cdf.length) :
    (cdf.update symbol).getD (cdf.length - 2) 0 = cdf.getD (cdf.length - 2) 0 := by
  rw [update, getD_mapIdx _ _ (by omega), if_neg (by omega), if_neg (by omega)]

theorem count_update (cdf : Cdf) (symbol : Nat) (long : 3 ≤ cdf.length) :
    (cdf.update symbol).count = cdf.count + 1 - cdf.count / countMax := by
  simp only [count, length_update]
  rw [update, getD_mapIdx _ _ (by omega), if_neg (by omega), if_pos (by omega)]

theorem lower_le (rate value : Nat) : lower rate value ≤ value := Nat.sub_le _ _

theorem lower_mono (rate : Nat) {a b : Nat} (order : a ≤ b) : lower rate a ≤ lower rate b := by
  have scaled : b / 2 ^ rate ≤ a / 2 ^ rate + (b - a) := by
    calc b / 2 ^ rate = (a + (b - a)) / 2 ^ rate := by rw [Nat.add_sub_cancel' order]
      _ ≤ (a + (b - a) * 2 ^ rate) / 2 ^ rate :=
          Nat.div_le_div_right (Nat.add_le_add_left (Nat.le_mul_of_pos_right _ (by positivity)) _)
      _ = a / 2 ^ rate + (b - a) := Nat.add_mul_div_right _ _ (by positivity)
  have := Nat.div_le_self a (2 ^ rate)
  unfold lower
  omega

theorem le_raise (rate value : Nat) : value ≤ raise rate value := Nat.le_add_right _ _

/-- Rising is falling, seen from the top. -/
theorem raise_eq (rate : Nat) {value : Nat} (below : value ≤ top) :
    raise rate value = top - lower rate (top - value) := by
  have part := Nat.div_le_self (top - value) (2 ^ rate)
  unfold raise lower
  generalize (top - value) / 2 ^ rate = step at part ⊢
  omega

theorem raise_mono (rate : Nat) {a b : Nat} (order : a ≤ b) (below : b ≤ top) :
    raise rate a ≤ raise rate b := by
  rw [raise_eq rate (order.trans below), raise_eq rate below]
  exact Nat.sub_le_sub_left (lower_mono rate (Nat.sub_le_sub_left order _)) _

theorem raise_lt (rate : Nat) {value : Nat} (positive : 0 < rate) (below : value < top) :
    raise rate value < top := by
  have room : 0 < top - value := Nat.sub_pos_of_lt below
  calc value + (top - value) / 2 ^ rate
      < value + (top - value) :=
        Nat.add_lt_add_left (Nat.div_lt_self room (Nat.one_lt_two_pow positive.ne')) _
    _ = top := Nat.add_sub_cancel' below.le

theorem rate_pos (cdf : Cdf) : 0 < cdf.rate := by
  unfold rate
  omega

/-- Neighbouring values do not cross: both fall, both rise, or the front one rises while the other
falls. -/
theorem Codable.falling_update {cdf : Cdf} (codable : cdf.Codable) (symbol : Nat) :
    (cdf.update symbol).Falling := by
  intro i inside
  rw [length_update] at inside
  have order := codable.falling i inside
  have below := codable.value_lt (i := i) (by omega)
  rw [getD_update cdf symbol inside]
  by_cases last : i + 3 = cdf.length
  · rw [show i + 1 = cdf.length - 2 by omega, terminal_update cdf symbol codable.three_le,
      codable.getD_terminal]
    exact Nat.zero_le _
  · rw [getD_update cdf symbol (by omega)]
    by_cases front : symbol ≤ i
    · rw [if_pos (by omega), if_pos front]
      exact lower_mono _ order
    · rw [if_neg front]
      by_cases between : symbol ≤ i + 1
      · rw [if_pos between]
        exact (lower_le _ _).trans (order.trans (le_raise _ _))
      · rw [if_neg between]
        exact raise_mono _ order below.le

/-- Adaptation keeps a row codable. -/
theorem Codable.update {cdf : Cdf} (codable : cdf.Codable) (symbol : Nat) :
    (cdf.update symbol).Codable := by
  have long := codable.three_le
  rw [codable_iff, length_update, terminal_update cdf symbol long, count_update cdf symbol long]
  refine ⟨long, codable.getD_terminal, ?_, codable.falling_update symbol, ?_⟩
  · have := codable.count_le
    unfold countMax at *
    omega
  · rw [getD_update cdf symbol (by omega)]
    split
    · exact Nat.lt_of_le_of_lt (lower_le _ _) codable.first_lt
    · exact raise_lt _ cdf.rate_pos codable.first_lt

/-! ## Counters -/

theorem getD_resetCount (cdf : Cdf) {i : Nat} (inside : i + 1 < cdf.length) :
    cdf.resetCount.getD i 0 = cdf.getD i 0 := by
  rw [resetCount, getD_mapIdx _ _ (by omega), if_neg (by omega)]

theorem count_resetCount (cdf : Cdf) : cdf.resetCount.count = 0 := by
  simp only [count, length_resetCount]
  rcases Nat.eq_zero_or_pos cdf.length with empty | filled
  · rw [List.getD_eq_default _ _ (by simp [empty])]
  · rw [resetCount, getD_mapIdx _ _ (by omega), if_pos (by omega)]

/-- The counter is the last value, and the only one that changes. -/
theorem resetCount_eq {cdf : Cdf} (filled : cdf ≠ []) : cdf.resetCount = cdf.dropLast ++ [0] := by
  have long := List.length_pos_iff.mpr filled
  apply List.ext_getElem (by rw [length_resetCount, List.length_append, List.length_dropLast]; simp; omega)
  intro i inside _
  rw [length_resetCount] at inside
  simp only [resetCount, List.getElem_mapIdx, List.getElem_append, List.length_dropLast]
  split
  next last => rw [dif_neg (by omega), List.getElem_singleton]
  next before => rw [dif_pos (by omega), List.getElem_dropLast]

theorem resetCount_of_count {cdf : Cdf} (count : cdf.count = 0) : cdf.resetCount = cdf := by
  apply List.ext_getElem (length_resetCount cdf)
  intro i inside _
  simp only [resetCount, List.getElem_mapIdx]
  split
  next last =>
    rw [Cdf.count, List.getD_eq_getElem _ _ (by omega)] at count
    simp only [← count, show cdf.length - 1 = i by omega]
  · rfl

@[simp] theorem resetCount_resetCount (cdf : Cdf) :
    cdf.resetCount.resetCount = cdf.resetCount :=
  resetCount_of_count cdf.count_resetCount

theorem Codable.resetCount {cdf : Cdf} (codable : cdf.Codable) : cdf.resetCount.Codable := by
  have long := codable.three_le
  obtain ⟨-, terminal, -, falling, first⟩ := codable_iff.mp codable
  rw [codable_iff, length_resetCount, getD_resetCount cdf (by omega), count_resetCount,
    getD_resetCount cdf (by omega)]
  refine ⟨long, terminal, Nat.zero_le _, ?_, first⟩
  intro i inside
  rw [length_resetCount] at inside
  rw [getD_resetCount cdf (by omega), getD_resetCount cdf (by omega)]
  exact falling i inside

/-! ## Flags -/

theorem codable_flagCdf {value : Nat} (below : value < top) : (Range.flagCdf value).Codable := by
  rw [codable_iff]
  refine ⟨Nat.le_refl 3, rfl, Nat.zero_le _, ?_, below⟩
  intro i inside
  have : i = 0 := by simp only [Range.flagCdf, List.length_cons, List.length_nil] at inside; omega
  subst this
  exact Nat.zero_le _

/-- The masses of all symbols from the second to the `n`-th and the value behind them make up the
first value. -/
theorem Falling.sum_mass {cdf : Cdf} (falling : cdf.Falling) {n : Nat}
    (inside : n + 1 < cdf.length) :
    ∑ i ∈ Finset.Ico 1 (n + 1), cdf.mass i + cdf.getD n 0 = cdf.getD 0 0 := by
  induction n with
  | zero => simp
  | succ n ih =>
      have order := falling n (by omega)
      have step : cdf.mass (n + 1) + cdf.getD (n + 1) 0 = cdf.getD n 0 := by
        simp only [mass, before]
        omega
      rw [Finset.sum_Ico_succ_top (by omega), Nat.add_assoc, step]
      exact ih (by omega)

/-- The masses of different symbols behind the first one leave the first one its own. -/
theorem Codable.sum_mass_le {cdf : Cdf} (codable : cdf.Codable) {symbols : List Nat}
    (distinct : symbols.Nodup) (inside : ∀ s ∈ symbols, 0 < s ∧ s < cdf.arity) :
    (symbols.map cdf.mass).sum ≤ cdf.getD 0 0 := by
  have long := codable.three_le
  have subset : symbols.toFinset ⊆ Finset.Ico 1 (cdf.length - 2 + 1) := by
    intro s member
    obtain ⟨positive, below⟩ := inside s (List.mem_toFinset.mp member)
    unfold arity at below
    rw [Finset.mem_Ico]
    omega
  calc (symbols.map cdf.mass).sum
      = ∑ i ∈ symbols.toFinset, cdf.mass i := (List.sum_toFinset _ distinct).symm
    _ ≤ ∑ i ∈ Finset.Ico 1 (cdf.length - 2 + 1), cdf.mass i := Finset.sum_le_sum_of_subset subset
    _ ≤ cdf.getD 0 0 := by
        have := codable.falling.sum_mass (n := cdf.length - 2) (by omega)
        omega

/-- A flag for some symbols other than the first can be coded. -/
theorem Codable.gather {cdf : Cdf} (codable : cdf.Codable) {symbols : List Nat}
    (distinct : symbols.Nodup) (inside : ∀ s ∈ symbols, 0 < s ∧ s < cdf.arity) :
    (cdf.gather symbols).Codable := by
  have bound := codable.sum_mass_le distinct inside
  have first := codable.first_lt
  apply codable_flagCdf
  omega

end TileCoder.Cdf
