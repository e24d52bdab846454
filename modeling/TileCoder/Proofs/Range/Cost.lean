import TileCoder.Proofs.Range.Outputs
import TileCoder.Proofs.Range.Share

/-!
# The cost of a symbol

What a symbol would cost is worked out from the range and the bits that are pending, without an output
that it could go to. It is the difference that the symbol makes to the position in eighths of a bit,
whatever the output (`Gauged.symbolCost_add`): the bytes that leave the coder make up for the bits that
are pending no more, and the open part of the last bit never falls by more than the whole bits rise
(`open_le_of_part`). Positions start over beyond a word, but the difference of two words is still that
of the numbers (`Gauged.exactCost`).

A writer is `Reachable` if it has come about from a fresh one by tokens of symbols that may be coded,
straight or out of a recording, and by going back to earlier states.
-/

namespace TileCoder.Range

/-! ## Places of a logarithm -/

/-- A range yields one binary place at a time. -/
theorem place_le_one {range : Nat} (below : range < 65536) : range * range / 32768 / 65536 ≤ 1 := by
  have square : range * range ≤ 65535 * 65535 := Nat.mul_le_mul (by omega) (by omega)
  omega

/-- Once the place is taken out, the square is in scale again. -/
theorem square_rest_lt {range : Nat} (below : range < 65536) :
    range * range / 32768 / 2 ^ (range * range / 32768 / 65536) < 65536 := by
  have square : range * range ≤ 65535 * 65535 := Nat.mul_le_mul (by omega) (by omega)
  rcases Nat.le_one_iff_eq_zero_or_eq_one.mp (place_le_one below) with zero | one
  · rw [zero]
    omega
  · rw [one]
    omega

/-- Further places only continue what is there. -/
theorem logPlaces_mem (steps log : Nat) {range : Nat} (below : range < 65536) :
    2 ^ steps * log ≤ logPlaces steps log range ∧
      logPlaces steps log range < 2 ^ steps * (log + 1) := by
  induction steps generalizing log range with
  | zero => simp [logPlaces]
  | succ steps ih =>
      have place := place_le_one below
      obtain ⟨above, under⟩ := ih (2 * log + range * range / 32768 / 65536) (square_rest_lt below)
      rw [logPlaces, Nat.pow_succ, Nat.mul_assoc, Nat.mul_assoc]
      exact ⟨(Nat.mul_le_mul_left _ (Nat.le_add_right _ _)).trans above,
        under.trans_le (Nat.mul_le_mul_left _ (by omega))⟩

/-- The larger a range, the larger its logarithm. -/
theorem logPlaces_mono (steps log : Nat) {narrow wide : Nat} (order : narrow ≤ wide)
    (below : wide < 65536) : logPlaces steps log narrow ≤ logPlaces steps log wide := by
  induction steps generalizing log narrow wide with
  | zero => exact Nat.le_refl log
  | succ steps ih =>
      have narrow_lt : narrow < 65536 := order.trans_lt below
      have squares : narrow * narrow / 32768 ≤ wide * wide / 32768 :=
        Nat.div_le_div_right (Nat.mul_le_mul order order)
      have places := Nat.div_le_div_right (c := 65536) squares
      have narrow_rest := square_rest_lt narrow_lt
      have wide_rest := square_rest_lt below
      have wide_place := place_le_one below
      rw [logPlaces, logPlaces]
      rcases places.lt_or_eq with less | same
      · -- the first place that differs decides
        have narrow_end := (logPlaces_mem steps (2 * log + narrow * narrow / 32768 / 65536)
          narrow_rest).2
        have wide_start := (logPlaces_mem steps (2 * log + wide * wide / 32768 / 65536) wide_rest).1
        have between := Nat.mul_le_mul_left (2 ^ steps)
          (show 2 * log + narrow * narrow / 32768 / 65536 + 1 ≤
            2 * log + wide * wide / 32768 / 65536 by omega)
        exact (narrow_end.trans_le (between.trans wide_start)).le
      · rw [same] at narrow_rest ⊢
        exact ih _ (Nat.div_le_div_right squares) wide_rest

/-- The open part of a bit is less than the bit. -/
theorem logPlaces_lt_eight {range : Nat} (scaled : InScale range) : logPlaces 3 0 range < 8 :=
  (logPlaces_mem 3 0 (Nat.lt_succ_of_le scaled.2)).2

/-- Scaling up a part of a range uses up at least as much in whole bits as it sets free in the open
one. -/
theorem open_le_of_part {range part : Nat} (scaled : InScale range) (positive : 0 < part)
    (within : part ≤ range) :
    logPlaces 3 0 (part * 2 ^ headroom part) ≤ 8 * headroom part + logPlaces 3 0 range := by
  have small := scaled.2
  rcases Nat.eq_zero_or_pos (headroom part) with none | some
  · rw [none, Nat.pow_zero, Nat.mul_one, Nat.mul_zero, Nat.zero_add]
    exact logPlaces_mono 3 0 within (Nat.lt_succ_of_le small)
  · have least := logPlaces_lt_eight (inScale_scaled positive (within.trans small))
    omega

/-! ## Writers -/

/-- The token of a symbol that may be coded. -/
def Token.Coded (token : Token) : Prop :=
  ∃ cdf : Cdf, ∃ symbol, cdf.Usable ∧ symbol < cdf.arity ∧ token = .ofSymbol cdf symbol

theorem Token.Coded.sound {token : Token} (coded : token.Coded) : token.Sound := by
  obtain ⟨cdf, symbol, usable, inside, rfl⟩ := coded
  exact .ofSymbol usable.roomy inside

namespace Writer

variable {σ : Type} [Output σ]

/-- A state that a writer can be in. The earlier state that it goes back to need not be one that it
has come through last. -/
inductive Reachable : Writer σ → Prop where
  | new : Reachable new
  | put {writer : Writer σ} {token : Token} :
      Reachable writer → token.Coded → Reachable (writer.put token)
  | rollback {writer earlier : Writer σ} :
      Reachable writer → Reachable earlier → Reachable (writer.rollback earlier.checkpoint)

theorem Reachable.symbol {writer : Writer σ} (reachable : writer.Reachable) {cdf : Cdf}
    (usable : cdf.Usable) {symbol : Nat} (inside : symbol < cdf.arity) :
    (writer.symbol cdf symbol).Reachable :=
  reachable.put ⟨cdf, symbol, usable, inside, rfl⟩

/-- A recorder holds tokens of symbols that may be coded, and no others. -/
theorem Reachable.coded_tokens {recorder : Writer Recording} (reachable : recorder.Reachable) :
    ∀ token ∈ recorder.out.tokens.toList, token.Coded := by
  induction reachable with
  | new => exact List.forall_mem_nil _
  | @put recorder token _ coded ih =>
      intro other member
      change other ∈ (recorder.out.tokens.push token).toList at member
      rw [Array.toList_push, List.mem_append, List.mem_singleton] at member
      rcases member with member | rfl
      · exact ih other member
      · exact coded
  | @rollback recorder earlier _ _ ih _ =>
      intro token member
      change token ∈ (recorder.out.tokens.take earlier.out.tokens.size).toList at member
      rw [Array.take_eq_extract, Array.toList_extract, List.extract_eq_take_drop, List.drop_zero,
        Nat.sub_zero] at member
      exact ih token (List.mem_of_mem_take member)

/-- Replaying leads from reachable states to reachable states. -/
theorem Reachable.replay {recorder : Writer Recording} (recorded : recorder.Reachable)
    {target : Writer σ} (reachable : target.Reachable) :
    (recorder.replay target).1.Reachable := by
  have coded := recorded.coded_tokens
  show (recorder.out.tokens.foldl Writer.put target).Reachable
  rw [← Array.foldl_toList]
  exact List.foldlRecOn _ Writer.put reachable fun _ reachable token member =>
    reachable.put (coded token member)

/-- A writer of which the position can be told. -/
structure Gauged (writer : Writer σ) : Prop where
  scaled : InScale writer.range
  count_ge : -9 ≤ writer.count

theorem Gauged.put [LawfulOutput σ] {writer : Writer σ} (gauged : writer.Gauged) {token : Token}
    (sound : token.Sound) : (writer.put token).Gauged := by
  obtain ⟨positive, within⟩ := sound writer.range gauged.scaled
  refine ⟨?_, LawfulOutput.count_put writer token gauged.count_ge⟩
  have small := gauged.scaled.2
  rw [LawfulOutput.range_put]
  exact inScale_scaled positive (by omega)

theorem Reachable.gauged [LawfulOutput σ] {writer : Writer σ} (reachable : writer.Reachable) :
    writer.Gauged := by
  induction reachable with
  | new => exact ⟨inScale_fullRange, Int.le_refl _⟩
  | put _ coded ih => exact ih.put coded.sound
  | rollback _ _ _ ih => exact ⟨ih.scaled, ih.count_ge⟩

/-! ## Costs -/

section Cost

variable {writer : Writer σ} {cdf : Cdf} {symbol : Nat}

/-- The size that the cost of a symbol is worked out from is that of the part of its token. -/
theorem partSize_eq (codable : cdf.Codable) (range : Nat) (inside : symbol < cdf.arity) :
    partSize range cdf symbol = ((Token.ofSymbol cdf symbol).part range).size := by
  rw [part_ofSymbol codable range inside]
  unfold Cdf.arity at inside
  cases symbol with
  | zero =>
      rw [partSize, upperEnd, lowerEnd, Nat.sub_zero, Nat.mul_comm, Nat.sub_sub]
  | succ symbol =>
      have order := scale_mono range (codable.falling symbol (by omega))
      rw [partSize, upperEnd, lowerEnd, lowerEnd]
      unfold minPart
      dsimp only
      omega

/-- The position in eighths, however many they are. -/
def eighths (writer : Writer σ) : Int := 8 * writer.bits - logPlaces 3 0 writer.range

theorem tellEighths_eq (writer : Writer σ) : writer.tellEighths = word writer.eighths := by
  have whole := word_cast writer.bits
  have shifted := word_cast (8 * word writer.bits - logPlaces 3 0 writer.range)
  have all := word_cast writer.eighths
  unfold tellEighths usedEighths tell
  unfold eighths wordSize at *
  omega

omit [Output σ] in
/-- The bits that a symbol scales its part up by, and what the part leaves open less. -/
theorem Gauged.symbolCost_eq (gauged : writer.Gauged) (usable : cdf.Usable)
    (inside : symbol < cdf.arity) {part : Nat}
    (part_eq : part = ((Token.ofSymbol cdf symbol).part writer.range).size) :
    (writer.symbolCost cdf symbol : Int) =
      8 * headroom part - logPlaces 3 0 (part * 2 ^ headroom part) +
        logPlaces 3 0 writer.range := by
  obtain ⟨positive, within⟩ := Token.Sound.ofSymbol usable.roomy inside writer.range gauged.scaled
  rw [← part_eq] at positive within
  have few := headroom_le _ positive
  have rest := open_le_of_part gauged.scaled positive (by omega)
  have places := logPlaces_lt_eight gauged.scaled
  unfold symbolCost usedEighths
  rw [partSize_eq usable.1 writer.range inside, ← part_eq]
  dsimp only
  -- with the bytes that leave the coder, the pending bits are `headroom` more than before
  rw [word_sub_word, word_of_fits (by omega) (by unfold wordSize; omega)]
  omega

/-- What a symbol costs is what it adds to the position. -/
theorem Gauged.symbolCost_add [LawfulOutput σ] (gauged : writer.Gauged) (usable : cdf.Usable)
    (inside : symbol < cdf.arity) :
    (writer.symbolCost cdf symbol : Int) = (writer.symbol cdf symbol).eighths - writer.eighths := by
  have cost := gauged.symbolCost_eq usable inside rfl
  have bits := bits_put writer (.ofSymbol cdf symbol)
  have range := LawfulOutput.range_put writer (.ofSymbol cdf symbol)
  show _ = (writer.put _).eighths - _
  rw [eighths, eighths, bits, range, cost]
  omega

omit [Output σ] in
/-- A symbol costs less than sixteen bits. -/
theorem Gauged.symbolCost_lt (gauged : writer.Gauged) (usable : cdf.Usable)
    (inside : symbol < cdf.arity) : writer.symbolCost cdf symbol < 128 := by
  have cost := gauged.symbolCost_eq usable inside rfl
  obtain ⟨positive, -⟩ := Token.Sound.ofSymbol usable.roomy inside writer.range gauged.scaled
  have few := headroom_le _ positive
  have places := logPlaces_lt_eight gauged.scaled
  omega

/-- The cost of a symbol is the difference that it makes to the position in eighths, as words have
it; and it is the difference between the two numbers where the position does not start over. -/
def ExactCost (writer : Writer σ) (cdf : Cdf) (symbol : Nat) : Prop :=
  writer.symbolCost cdf symbol =
      word ((writer.symbol cdf symbol).tellEighths - writer.tellEighths) ∧
    (8 * (writer.symbol cdf symbol).bits < wordSize →
      writer.symbolCost cdf symbol + writer.tellEighths = (writer.symbol cdf symbol).tellEighths)

theorem Gauged.exactCost [LawfulOutput σ] (gauged : writer.Gauged) (usable : cdf.Usable)
    (inside : symbol < cdf.arity) : writer.ExactCost cdf symbol := by
  have cost := gauged.symbolCost_add usable inside
  have low := gauged.symbolCost_lt usable inside
  unfold ExactCost
  rw [tellEighths_eq, tellEighths_eq]
  constructor
  · have kept := word_of_fits (n := writer.symbolCost cdf symbol) (by omega)
      (by unfold wordSize; omega)
    rw [word_sub_word, ← cost]
    omega
  · intro fits
    have count := gauged.count_ge
    have places := logPlaces_lt_eight gauged.scaled
    have positive : 0 ≤ writer.eighths := by
      unfold eighths bits
      omega
    have within : (writer.symbol cdf symbol).eighths < wordSize := by
      unfold eighths
      omega
    have before := word_of_fits positive (by omega)
    have after := word_of_fits (n := (writer.symbol cdf symbol).eighths) (by omega) within
    omega

end Cost

/-- **The cost of a symbol is exact**: it is what the symbol adds to the position in eighths of a bit,
which is a word and may start over, whether bytes or tokens are kept, or bits are counted. -/
theorem symbolCost_exact {cdf : Cdf} (codable : cdf.Codable) (few : cdf.arity ≤ Cdf.maxSymbols)
    {symbol : Nat} (inside : symbol < cdf.arity) :
    (∀ writer : Writer Payload, writer.Reachable → writer.ExactCost cdf symbol) ∧
    (∀ writer : Writer Recording, writer.Reachable → writer.ExactCost cdf symbol) ∧
    (∀ writer : Writer BitCount, writer.Reachable → writer.ExactCost cdf symbol) :=
  ⟨fun _ reachable => reachable.gauged.exactCost ⟨codable, few⟩ inside,
    fun _ reachable => reachable.gauged.exactCost ⟨codable, few⟩ inside,
    fun _ reachable => reachable.gauged.exactCost ⟨codable, few⟩ inside⟩

/-- A symbol of nearly fourteen bits, after another one that is taken back. -/
theorem symbolCost_exact_rollback :
    let cdf : Cdf := [32767, 32764, 0, 5]
    let first : Writer Payload := new.symbol cdf 2
    let writer := (first.symbol cdf 0).rollback first.checkpoint
    cdf.Codable ∧ cdf.arity ≤ Cdf.maxSymbols ∧ 1 < cdf.arity ∧ writer.Reachable ∧
      writer.symbolCost cdf 1 = 111 ∧ writer.tellEighths = 9 ∧
      (writer.symbol cdf 1).tellEighths = 120 ∧ writer.ExactCost cdf 1 := by
  intro cdf first writer
  have codable : cdf.Codable := by decide
  have few : cdf.arity ≤ Cdf.maxSymbols := by decide
  have inside : 1 < cdf.arity := by decide
  have start : first.Reachable := Reachable.new.symbol ⟨codable, few⟩ (by decide)
  have reachable : writer.Reachable :=
    (start.symbol ⟨codable, few⟩ (by decide)).rollback start
  exact ⟨codable, few, inside, reachable, by decide, by decide, by decide,
    (symbolCost_exact codable few inside).1 writer reachable⟩

end Writer

end TileCoder.Range
