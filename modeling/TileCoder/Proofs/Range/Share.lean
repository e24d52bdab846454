import TileCoder.Proofs.Cdf.Codable

/-!
# How symbols share a range

The parts of a range that belong to the symbols of a codable row lie side by side, from the upper
end of the first symbol (`upperEnd`) down to the lower end of the last (`lowerEnd`). Where there is
room for all of them, none is smaller than `minPart` (`lowerEnd_add_le_upperEnd`), and `part_ofSymbol`
says that the part of a symbol's token is the piece between its two ends.

`Token.Sound` is all that coders need of a token: on any range in scale it selects a piece that is
not empty and lies within the range.
-/

namespace TileCoder

/-- A row that can be coded with: codable, and with no more symbols than the least parts leave room
for. -/
def Cdf.Usable (cdf : Cdf) : Prop := cdf.Codable ∧ cdf.arity ≤ maxSymbols

/-- A codable row whose first value, as exact as a coder takes it, leaves room for the least parts of
all symbols. -/
def Cdf.Roomy (cdf : Cdf) : Prop :=
  cdf.Codable ∧ 64 * (cdf.getD 0 0 / 64) + Range.minPart * cdf.arity ≤ Range.fullRange

instance (cdf : Cdf) : Decidable cdf.Roomy := inferInstanceAs (Decidable (_ ∧ _))

/-- Whatever its values, a row of sixteen symbols has the room. -/
theorem Cdf.Usable.roomy {cdf : Cdf} (usable : cdf.Usable) : cdf.Roomy := by
  obtain ⟨codable, few⟩ := usable
  have first : cdf.getD 0 0 < top := codable.first_lt
  refine ⟨codable, ?_⟩
  unfold maxSymbols at few
  unfold top at first
  unfold Range.minPart Range.fullRange
  omega

namespace Range

/-- The ranges of a coder between two symbols. -/
def InScale (range : Nat) : Prop := 32768 ≤ range ∧ range ≤ 65535

theorem inScale_fullRange : InScale fullRange := by
  unfold InScale
  decide

/-! ## Scaling up -/

theorem log2_lt_sixteen {part : Nat} (positive : part ≠ 0) (small : part ≤ 65535) :
    part.log2 < 16 :=
  (Nat.log2_lt positive).mpr (by omega)

theorem headroom_eq {part : Nat} (positive : part ≠ 0) : headroom part = 15 - part.log2 := by
  rw [headroom, bitLength, if_neg positive]
  omega

theorem headroom_le (part : Nat) (positive : 0 < part) : headroom part ≤ 15 := by
  rw [headroom_eq positive.ne']
  omega

/-- The part of a symbol is not the smallest of all. -/
theorem headroom_le_of_minPart {part : Nat} (wide : minPart ≤ part) : headroom part ≤ 13 := by
  unfold minPart at wide
  have digits := (Nat.le_log2 (n := part) (k := 2) (by omega)).mpr (by omega)
  rw [headroom_eq (by omega)]
  omega

/-- Any part of a range can be scaled up to a range. -/
theorem inScale_scaled {part : Nat} (positive : 0 < part) (small : part ≤ 65535) :
    InScale (part * 2 ^ headroom part) := by
  have nonzero := positive.ne'
  have bound := log2_lt_sixteen nonzero small
  -- the leading one of the part moves up to the sixteenth place
  have split : 2 ^ part.log2 * 2 ^ (15 - part.log2) = 2 ^ 15 := by
    rw [← Nat.pow_add, Nat.add_sub_cancel' (by omega)]
  have low := Nat.log2_self_le nonzero
  have high := Nat.lt_log2_self (n := part)
  rw [headroom_eq nonzero]
  constructor
  · calc 32768 = 2 ^ part.log2 * 2 ^ (15 - part.log2) := split.symm
      _ ≤ part * 2 ^ (15 - part.log2) := Nat.mul_le_mul_right _ low
  · have : part * 2 ^ (15 - part.log2) < 2 ^ (part.log2 + 1) * 2 ^ (15 - part.log2) :=
      Nat.mul_lt_mul_of_pos_right high (by positivity)
    rw [Nat.pow_succ, Nat.mul_right_comm, split] at this
    omega

/-! ## The ends of parts -/

theorem scale_mono (range : Nat) {a b : Nat} (order : a ≤ b) : scale range a ≤ scale range b :=
  Nat.div_le_div_right (Nat.mul_le_mul_left _ (Nat.div_le_div_right order))

@[simp] theorem scale_zero (range : Nat) : scale range 0 = 0 := by
  simp [scale]

/-- No range leaves less above a value than the least one. -/
theorem scale_add_fullRange_le {range value : Nat} (scaled : InScale range)
    (below : value < Cdf.top) : scale range value + fullRange ≤ range + 64 * (value / 64) := by
  have units : value / 64 ≤ 512 := by
    unfold Cdf.top at below
    omega
  obtain ⟨more, more_eq⟩ : ∃ more, range / 256 = 128 + more :=
    ⟨range / 256 - 128, by have := scaled.1; omega⟩
  have whole : range / 256 * 256 ≤ range := Nat.div_mul_le_self _ _
  -- each further 256 of the range take half of the units with them, at most
  have share := Nat.mul_le_mul_left more units
  unfold scale fullRange
  rw [more_eq] at whole ⊢
  rw [Nat.add_mul]
  generalize more * (value / 64) = taken at share ⊢
  omega

/-- However large the first value, the parts of sixteen symbols fit behind it. -/
theorem scale_add_le {range value : Nat} (scaled : InScale range) (below : value < Cdf.top) :
    scale range value + 64 ≤ range := by
  have least := scale_add_fullRange_le scaled below
  unfold Cdf.top at below
  unfold fullRange at least
  omega

/-- How far a symbol's part of a range is from the lower end of all parts. -/
def lowerEnd (cdf : Cdf) (range symbol : Nat) : Nat :=
  scale range (cdf.getD symbol 0) + minPart * (cdf.length - 2 - symbol)

/-- Where a symbol's part ends above: at the lower end of the one before, or of the range. -/
def upperEnd (cdf : Cdf) (range : Nat) : (symbol : Nat) → Nat
  | 0 => range
  | symbol + 1 => lowerEnd cdf range symbol

section Ends

variable {cdf : Cdf} {range : Nat}

theorem lowerEnd_succ_add_le (codable : cdf.Codable) (range : Nat) {symbol : Nat}
    (inside : symbol + 2 < cdf.length) :
    lowerEnd cdf range (symbol + 1) + minPart ≤ lowerEnd cdf range symbol := by
  have order := scale_mono range (codable.falling symbol inside)
  unfold lowerEnd minPart
  omega

theorem lowerEnd_zero_add_le (roomy : cdf.Roomy) (scaled : InScale range) :
    lowerEnd cdf range 0 + minPart ≤ range := by
  obtain ⟨codable, room⟩ := roomy
  have long := codable.three_le
  have least := scale_add_fullRange_le scaled codable.first_lt
  unfold Cdf.arity at room
  unfold lowerEnd
  unfold minPart fullRange at *
  omega

/-- Every symbol has a part. -/
theorem lowerEnd_add_le_upperEnd (roomy : cdf.Roomy) (scaled : InScale range) {symbol : Nat}
    (inside : symbol < cdf.arity) :
    lowerEnd cdf range symbol + minPart ≤ upperEnd cdf range symbol := by
  unfold Cdf.arity at inside
  cases symbol with
  | zero => exact lowerEnd_zero_add_le roomy scaled
  | succ symbol => exact lowerEnd_succ_add_le roomy.1 range (by omega)

theorem lowerEnd_anti (codable : cdf.Codable) (range : Nat) {i j : Nat} (order : i ≤ j)
    (inside : j < cdf.arity) : lowerEnd cdf range j ≤ lowerEnd cdf range i := by
  unfold Cdf.arity at inside
  induction j, order using Nat.le_induction with
  | base => exact Nat.le_refl _
  | succ j _ ih =>
      have := lowerEnd_succ_add_le codable range (show j + 2 < cdf.length by omega)
      exact Nat.le_trans (by omega) (ih (by omega))

theorem upperEnd_le (roomy : cdf.Roomy) (scaled : InScale range) {symbol : Nat}
    (inside : symbol < cdf.arity) : upperEnd cdf range symbol ≤ range := by
  cases symbol with
  | zero => exact Nat.le_refl _
  | succ symbol =>
      have first := lowerEnd_zero_add_le roomy scaled
      have order := lowerEnd_anti roomy.1 range (Nat.zero_le symbol) (by omega)
      exact Nat.le_trans order (by omega)

/-- The last part reaches down to the lower end of the range. -/
theorem lowerEnd_last (codable : cdf.Codable) (range : Nat) :
    lowerEnd cdf range (cdf.length - 2) = 0 := by
  rw [lowerEnd, codable.getD_terminal]
  simp

theorem behind_ofSymbol (cdf : Cdf) (range symbol : Nat) :
    scale range (Token.ofSymbol cdf symbol).behind +
        minPart * ((Token.ofSymbol cdf symbol).ranks - 1) = lowerEnd cdf range symbol := by
  show scale range (cdf.getD symbol 0) + minPart * (cdf.length - 1 - symbol - 1) = _
  rw [lowerEnd, show cdf.length - 1 - symbol - 1 = cdf.length - 2 - symbol by omega]

theorem before_ofSymbol (cdf : Cdf) (range symbol : Nat) :
    scale range (Token.ofSymbol cdf (symbol + 1)).before +
        minPart * (Token.ofSymbol cdf (symbol + 1)).ranks = upperEnd cdf range (symbol + 1) := by
  show scale range (cdf.getD symbol 0) + minPart * (cdf.length - 1 - (symbol + 1)) = _
  rw [upperEnd, lowerEnd, show cdf.length - 1 - (symbol + 1) = cdf.length - 2 - symbol by omega]

/-- The first symbol has the whole in front of it. -/
theorem before_lt_top_iff (codable : cdf.Codable) {symbol : Nat} (inside : symbol < cdf.arity) :
    (Token.ofSymbol cdf symbol).before < Cdf.top ↔ symbol ≠ 0 := by
  unfold Cdf.arity at inside
  cases symbol with
  | zero => exact iff_of_false (lt_irrefl _) (not_not_intro rfl)
  | succ symbol => exact iff_of_true (codable.value_lt (by omega)) (Nat.succ_ne_zero symbol)

/-- A symbol's token selects what lies between its ends. -/
theorem part_ofSymbol (codable : cdf.Codable) (range : Nat) {symbol : Nat}
    (inside : symbol < cdf.arity) :
    (Token.ofSymbol cdf symbol).part range =
      ⟨range - upperEnd cdf range symbol,
        upperEnd cdf range symbol - lowerEnd cdf range symbol⟩ := by
  simp only [Token.part, behind_ofSymbol, before_lt_top_iff codable inside]
  cases symbol with
  | zero => simp only [ne_eq, not_true_eq_false, if_false, upperEnd, Nat.sub_self]
  | succ symbol =>
      simp only [ne_eq, Nat.succ_ne_zero, not_false_eq_true, if_true, before_ofSymbol]

end Ends

/-! ## Sound tokens -/

/-- On any range in scale the token selects a piece of it that is not empty. -/
def Token.Sound (token : Token) : Prop :=
  ∀ range, InScale range →
    0 < (token.part range).size ∧ (token.part range).offset + (token.part range).size ≤ range

theorem Token.Sound.ofSymbol {cdf : Cdf} (roomy : cdf.Roomy) {symbol : Nat}
    (inside : symbol < cdf.arity) : (Token.ofSymbol cdf symbol).Sound := by
  intro range scaled
  have ends := lowerEnd_add_le_upperEnd roomy scaled inside
  have within := upperEnd_le roomy scaled inside
  rw [part_ofSymbol roomy.1 range inside]
  unfold minPart at ends
  constructor
  · show 0 < upperEnd cdf range symbol - lowerEnd cdf range symbol
    omega
  · show range - upperEnd cdf range symbol +
      (upperEnd cdf range symbol - lowerEnd cdf range symbol) ≤ range
    omega

theorem usable_flagCdf {value : Nat} (below : value < Cdf.top) : (flagCdf value).Usable :=
  ⟨Cdf.codable_flagCdf below, by simp [Cdf.arity, flagCdf, Cdf.maxSymbols]⟩

theorem toNat_lt_arity_flagCdf (value : Nat) (flag : Bool) :
    flag.toNat < (flagCdf value).arity := by
  cases flag <;> simp [Cdf.arity, flagCdf]

end Range

end TileCoder
