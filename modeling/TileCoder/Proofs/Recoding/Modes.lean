import TileCoder.Proofs.Element.Palette
import TileCoder.Proofs.Element.References
import TileCoder.Proofs.Recoding.Blocks

/-!
# Recoding modes, references and palettes

The modes of a block and the choices that go with them, save for maps of colours. Where flags lead
down a tree, the value at each leaf is written with the flags that led there. The index of a
candidate is the last one that its flags could reach or the one where they stopped
(`recodes_flags`).
-/

namespace TileCoder

open Parse (takes_pure takes_readSymbol)
open Plan (codes_pure codes_symbol codes_flag)

theorem PredictionMode.index_of_ofIndex? {i : Nat} {mode : PredictionMode}
    (found : ofIndex? i = some mode) : mode.index = i :=
  index_of_getElem? (by decide) ofIndex?_index found

/-- A case among all cases is written as the symbol that it was found by. -/
theorem recodes_listed {α : Type} {slot : Slot} {cases : List α} (distinct : cases.Nodup)
    {index : α → Nat} (listed : ∀ value, cases[index value]? = some value) :
    Recodes (Parse.readSymbol slot >>= fun symbol => Parse.ofOption cases[symbol]?)
      (fun value => Plan.symbol slot (index value)) := by
  intro steps value takes
  obtain ⟨symbol, -, rfl, found⟩ := takes.of_found
  obtain rfl := index_of_getElem? distinct listed found
  exact codes_symbol _ _

/-! ## Modes within the frame -/

namespace Intra

theorem recodes_lumaMode {slot : Slot} (symbols : slot.table.symbols = PredictionMode.intraModes) :
    Recodes (readMode slot) (writeLumaMode slot) := by
  intro steps mode takes
  obtain ⟨symbol, inside, rfl, found⟩ := Parse.Takes.of_found takes
  obtain rfl := PredictionMode.index_of_ofIndex? found
  exact .check (checkSymbol_eq_ok.mpr (symbols ▸ inside)) (codes_symbol _ _)

theorem recodes_chromaMode (luma : PredictionMode) (size : BlockSize) :
    Recodes (readChromaMode luma size) (writeChromaMode luma size) := by
  intro steps mode takes
  obtain ⟨⟨⟩, isLuma, takes_mode⟩ := Parse.Takes.of_check takes
  obtain ⟨symbol, inside, rfl, found⟩ := Parse.Takes.of_found takes_mode
  obtain rfl := PredictionMode.index_of_ofIndex? found
  exact .check isLuma (.check (checkSymbol_eq_ok.mpr inside) (codes_symbol _ _))

theorem recodes_angleDelta (mode : PredictionMode) :
    Recodes (readAngleDelta mode) (writeAngleDelta mode) := by
  intro steps delta takes
  obtain ⟨directional, takes_symbol⟩ := Parse.Takes.of_given takes
  obtain ⟨symbol, rest, inside, rfl, takes_last⟩ := takes_symbol.of_symbol
  obtain ⟨rfl, rfl⟩ := takes_pure.mp takes_last
  have inside : symbol < 7 := inside
  unfold writeAngleDelta maxAngleDelta
  refine .unless (not_or.mpr ⟨not_not_intro directional, by omega⟩) ?_
  rw [show ((symbol : Int) - (3 : Nat) + (3 : Nat)).toNat = symbol by omega]
  exact codes_symbol _ _

theorem recodes_filterMode : Recodes readFilterMode writeFilterMode :=
  recodes_listed (by decide) FilterIntraMode.all_getElem?

end Intra

/-! ## Modes between frames -/

namespace Inter

theorem recodes_mode (context : Nat) : Recodes (readMode context) (writeMode context) := by
  intro steps mode takes
  obtain ⟨notNew, afterNew, rfl, takes_still⟩ := Parse.Takes.of_flag rfl takes
  cases notNew with
  | false =>
      obtain ⟨rfl, rfl⟩ := takes_pure.mp takes_still
      rfl
  | true =>
      obtain ⟨notGlobal, afterGlobal, rfl, takes_nearest⟩ := Parse.Takes.of_flag rfl takes_still
      cases notGlobal with
      | false =>
          obtain ⟨rfl, rfl⟩ := takes_pure.mp takes_nearest
          rfl
      | true =>
          obtain ⟨notNearest, rfl, takes_last⟩ := Parse.Takes.of_map takes_nearest
          rw [Parse.takes_readFlag rfl takes_last]
          cases notNearest <;> rfl

theorem recodes_compoundMode (context : Nat) :
    Recodes (readCompoundMode context) (writeCompoundMode context) := by
  intro steps mode takes
  obtain ⟨symbol, inside, rfl, found⟩ := Parse.Takes.of_found takes
  have mode_eq := PredictionMode.index_of_ofIndex? found
  refine .given (Nat.le.intro ((Nat.add_comm _ _).trans mode_eq.symm)) ?_
  rw [mode_eq, Nat.add_sub_cancel]
  exact codes_symbol _ _

/-- What the flags have said so far is where they stop, or else they go on from there. -/
theorem recodes_flags (weights : List Nat) {flags i said index : Nat} {steps : List Step}
    (few : flags ≤ 2) (so_far : said = min i (max (weights.length - 1) (i + flags - 2)))
    (takes : (readFlags weights flags i said).Takes steps index) :
    said ≤ index ∧ (writeFlags weights index flags i).Codes () steps := by
  induction flags generalizing i said steps with
  | zero =>
      obtain ⟨rfl, rfl⟩ := takes_pure.mp takes
      rw [Nat.add_zero] at so_far
      rw [writeFlags, if_pos so_far]
      exact ⟨Nat.le_refl _, codes_pure ()⟩
  | succ flags ih =>
      rw [readFlags] at takes
      rw [writeFlags]
      by_cases more : i + 1 < weights.length
      · rw [if_pos more] at takes ⊢
        obtain ⟨further, rest, rfl, takes_rest⟩ := Parse.Takes.of_flag rfl takes
        cases further with
        | true =>
            obtain ⟨beyond, codes⟩ := ih (by omega) (by omega) takes_rest
            have later : i < index := beyond
            rw [if_pos later, decide_eq_true later]
            exact ⟨by omega, .after codes⟩
        | false =>
            obtain ⟨rfl, rfl⟩ := takes_pure.mp takes_rest
            rw [if_neg (Nat.lt_irrefl index), if_neg (not_not_intro rfl),
              decide_eq_false (Nat.lt_irrefl index)]
            exact ⟨by omega, .after (codes_pure ())⟩
      · rw [if_neg more] at takes ⊢
        exact ih (by omega) (by omega) takes

theorem recodes_candidate (mode : PredictionMode) (weights : List Nat) :
    Recodes (readCandidate mode weights) (writeCandidate mode weights) := by
  intro steps index takes
  unfold readCandidate at takes
  unfold writeCandidate
  cases found : firstCandidate? mode with
  | none =>
      rw [found] at takes
      obtain ⟨rfl, rfl⟩ := takes_pure.mp takes
      exact codes_pure ()
  | some first =>
      rw [found] at takes
      exact (recodes_flags weights (Nat.le_refl 2) (by omega) takes).2

theorem recodes_interIntraMode (size : BlockSize) :
    Recodes (readInterIntraMode size) (writeInterIntraMode size) :=
  recodes_listed (by decide) InterIntraMode.all_getElem?

theorem recodes_wedge (size : BlockSize) : Recodes (readWedge size) (writeWedge size) := by
  intro steps wedge takes
  obtain ⟨rfl, inside⟩ := takes_readSymbol.mp takes
  exact .check (checkSymbol_eq_ok.mpr inside) (codes_symbol _ _)

theorem recodes_compoundType (size : BlockSize) :
    Recodes (readCompoundType size) (writeCompoundType size) :=
  recodes_listed (by decide) CompoundType.all_getElem?

theorem recodes_motionMode (size : BlockSize) (mayWarp : Bool) :
    Recodes (readMotionMode size mayWarp) (writeMotionMode size mayWarp) := by
  intro steps mode takes
  cases mayWarp with
  | true => exact recodes_listed (by decide) MotionMode.all_getElem? takes
  | false =>
      obtain ⟨overlapped, rfl, takes_flag⟩ := Parse.Takes.of_map takes
      rw [Parse.takes_readFlag rfl takes_flag]
      cases overlapped <;> rfl

theorem recodes_filter (near : Neighbours) (direction : Nat) (refs : RefPair) :
    Recodes (readFilter near direction refs) (writeFilter near direction refs) := by
  intro steps filter takes
  obtain ⟨symbol, inside, rfl, found⟩ := Parse.Takes.of_found takes
  obtain rfl := index_of_getElem? (by decide) InterpolationFilter.all_getElem? found
  exact .check (checkSymbol_eq_ok.mpr inside) (codes_symbol _ _)

end Inter

/-! ## References -/

namespace RefPair

variable {farthest middle far lastOrLast2 last3OrGolden : Slot} {steps : List Step}
  {ref : Reference}

theorem recodes_later (farthest_two : farthest.table.symbols = 2)
    (middle_two : middle.table.symbols = 2)
    (takes : (readLater farthest middle).Takes steps ref) :
    ref.isLater = true ∧ (writeLater farthest middle ref).Codes () steps := by
  obtain ⟨alternate, rest, rfl, takes_rest⟩ := Parse.Takes.of_flag farthest_two takes
  cases alternate with
  | true =>
      obtain ⟨rfl, rfl⟩ := takes_pure.mp takes_rest
      exact ⟨rfl, rfl⟩
  | false =>
      obtain ⟨alternate2, last, rfl, takes_last⟩ := Parse.Takes.of_flag middle_two takes_rest
      cases alternate2 <;> obtain ⟨rfl, rfl⟩ := takes_pure.mp takes_last <;> exact ⟨rfl, rfl⟩

theorem recodes_earlier (far_two : far.table.symbols = 2)
    (near_two : lastOrLast2.table.symbols = 2) (last_two : last3OrGolden.table.symbols = 2)
    (takes : (readEarlier far lastOrLast2 last3OrGolden).Takes steps ref) :
    ref.isInter = true ∧ ref.isForward = true ∧
      (writeEarlier far lastOrLast2 last3OrGolden ref).Codes () steps := by
  obtain ⟨isFar, rest, rfl, takes_rest⟩ := Parse.Takes.of_flag far_two takes
  cases isFar with
  | true =>
      obtain ⟨golden, rfl, takes_last⟩ := Parse.Takes.of_map takes_rest
      rw [Parse.takes_readFlag last_two takes_last]
      cases golden <;> exact ⟨rfl, rfl, rfl⟩
  | false =>
      obtain ⟨last2, rfl, takes_last⟩ := Parse.Takes.of_map takes_rest
      rw [Parse.takes_readFlag near_two takes_last]
      cases last2 <;> exact ⟨rfl, rfl, rfl⟩

theorem recodes_single (near : Neighbours) (takes : (readSingle near).Takes steps ref) :
    ref.isInter = true ∧ (writeSingle near ref).Codes () steps := by
  obtain ⟨backward, rest, rfl, takes_rest⟩ := Parse.Takes.of_flag rfl takes
  unfold writeSingle
  cases backward with
  | true =>
      obtain ⟨later, codes⟩ := recodes_later rfl rfl takes_rest
      obtain ⟨isBackward, inter⟩ := Bool.and_eq_true_iff.mp later
      rw [isBackward]
      exact ⟨inter, .after codes⟩
  | false =>
      obtain ⟨inter, forward, codes⟩ := recodes_earlier rfl rfl rfl takes_rest
      rw [Reference.isBackward_eq_not_isForward, forward]
      exact ⟨inter, .after codes⟩

theorem recodes_bothSides (near : Neighbours) {refs : RefPair}
    (takes : (readBothSides near).Takes steps refs) :
    refs.first.isInter = true ∧ refs.isCompound = true ∧ refs.isBidirectional = true ∧
      (writeBothSides near refs).Codes () steps := by
  obtain ⟨first, front, back, rfl, takes_first, takes_rest⟩ := Parse.Takes.of_bind takes
  obtain ⟨second, rfl, takes_second⟩ := Parse.Takes.of_map takes_rest
  obtain ⟨inter, forward, first_codes⟩ := recodes_earlier rfl rfl rfl takes_first
  obtain ⟨later, second_codes⟩ := recodes_later rfl rfl takes_second
  obtain ⟨isBackward, compound⟩ := Bool.and_eq_true_iff.mp later
  exact ⟨inter, compound, Bool.and_eq_true_iff.mpr ⟨forward, isBackward⟩,
    first_codes.bind second_codes⟩

/-- No pair from one side has a reference from each. -/
theorem recodes_oneSide (near : Neighbours) {refs : RefPair}
    (takes : (readOneSide near).Takes steps refs) :
    refs.first.isInter = true ∧ refs.isCompound = true ∧ refs.isUnidirectional = true ∧
      refs.isBidirectional = false ∧ (writeOneSide near refs).Codes () steps := by
  obtain ⟨backward, rest, rfl, takes_rest⟩ := Parse.Takes.of_flag rfl takes
  cases backward with
  | true =>
      obtain ⟨rfl, rfl⟩ := takes_pure.mp takes_rest
      exact ⟨rfl, rfl, rfl, rfl, rfl⟩
  | false =>
      obtain ⟨far, last, rfl, takes_last⟩ := Parse.Takes.of_flag rfl takes_rest
      cases far with
      | false =>
          obtain ⟨rfl, rfl⟩ := takes_pure.mp takes_last
          exact ⟨rfl, rfl, rfl, rfl, rfl⟩
      | true =>
          obtain ⟨golden, rfl, takes_golden⟩ := Parse.Takes.of_map takes_last
          rw [Parse.takes_readFlag rfl takes_golden]
          cases golden <;> exact ⟨rfl, rfl, rfl, rfl, rfl⟩

theorem recodes_pair (site : Site) {refs : RefPair}
    (takes : (Parse.readFlag site.directionSlot >>= fun both =>
      if both then readBothSides site.near else readOneSide site.near).Takes steps refs) :
    refs.first.isInter = true ∧ refs.isCompound = true ∧
      (refs.isBidirectional = true ∨ refs.isUnidirectional = true) ∧
      Plan.Codes (Plan.flag site.directionSlot refs.isBidirectional >>= fun _ =>
        if refs.isBidirectional then writeBothSides site.near refs
        else writeOneSide site.near refs) () steps := by
  obtain ⟨both, rest, rfl, takes_rest⟩ := Parse.Takes.of_flag rfl takes
  cases both with
  | true =>
      obtain ⟨inter, compound, both, codes⟩ := recodes_bothSides site.near takes_rest
      rw [both]
      exact ⟨inter, compound, .inl rfl, .after codes⟩
  | false =>
      obtain ⟨inter, compound, one, not_both, codes⟩ := recodes_oneSide site.near takes_rest
      rw [not_both]
      exact ⟨inter, compound, .inr one, .after codes⟩

theorem recodes_one (site : Site) {refs : RefPair}
    (takes : (readSingle site.near >>= fun ref => pure ⟨ref, .none⟩).Takes steps refs) :
    refs.first.isInter = true ∧ refs.second = .none ∧
      (writeSingle site.near refs.first).Codes () steps := by
  obtain ⟨ref, rfl, takes_ref⟩ := Parse.Takes.of_map takes
  obtain ⟨inter, codes⟩ := recodes_single site.near takes_ref
  exact ⟨inter, rfl, codes⟩

/-- No reader comes to the frame itself as a second reference. -/
theorem takes_read {site : Site} {refs : RefPair} (takes : (read site).Takes steps refs) :
    refs.second ≠ .intra ∧ (write site refs).Codes () steps := by
  obtain ⟨isCompound, front, back, rfl, coded, absent, takes_refs⟩ := Parse.Takes.of_optional takes
  -- whether there are two is written as it was read
  have flag (same : refs.isCompound = isCompound) : site.mayBeCompound = true →
      (Plan.flag site.compoundSlot refs.isCompound).Codes () front := by
    intro may
    rw [same, Parse.takes_readFlag rfl (coded may)]
    exact codes_flag _ _
  have nothing (never : site.mayBeCompound = false) : front = [] := (absent never).1
  unfold write
  cases isCompound with
  | true =>
      obtain ⟨inter, compound, sides, codes⟩ := recodes_pair site takes_refs
      have may : site.mayBeCompound = true := by
        by_contra never
        cases (absent (Bool.eq_false_of_not_eq_true never)).2
      refine ⟨?_, .given ⟨inter, fun _ => ⟨may, sides⟩⟩ (.optional (flag compound) nothing ?_)⟩
      · intro intra
        rw [isCompound, intra] at compound
        cases compound
      · rw [if_pos compound]
        exact codes
  | false =>
      obtain ⟨inter, second, codes⟩ := recodes_one site takes_refs
      have single : refs.isCompound = false := by
        rw [isCompound, second]
        rfl
      refine ⟨by simp [second], .given ⟨inter, by simp [single]⟩ (.optional (flag single) nothing ?_)⟩
      rw [single]
      exact codes

theorem recodes (site : Site) : Recodes (read site) (write site) :=
  fun _ _ takes => (takes_read takes).2

end RefPair

/-! ## Palettes -/

namespace Palette

theorem recodes_luma (near : Neighbours) (size : BlockSize) :
    Recodes (readLuma near size) (writeLuma near size) := by
  intro steps enabled takes
  obtain ⟨context, found, takes_flag⟩ := Parse.Takes.of_check takes
  exact .check found (recodes_flag rfl takes_flag)

theorem recodes_size (luma : Bool) (size : BlockSize) :
    Recodes (readSize luma size) (writeSize luma size) := by
  intro steps colors takes
  obtain ⟨context, found, takes_symbol⟩ := Parse.Takes.of_check takes
  obtain ⟨symbol, rfl, takes_last⟩ := Parse.Takes.of_map takes_symbol
  obtain ⟨rfl, inside⟩ := takes_readSymbol.mp takes_last
  have inside : symbol < 7 := by cases luma <;> exact inside
  have few : checkSize (symbol + minColors) = .ok () :=
    checkSize_eq_ok.mpr ⟨Nat.le_add_left _ _, by unfold minColors maxColors; omega⟩
  refine .check few (.check found ?_)
  rw [Nat.add_sub_cancel]
  exact codes_symbol _ _

theorem takes_rank {luma : Bool} {colors context rank : Nat} {steps : List Step}
    (takes : (readRank luma colors context).Takes steps rank) :
    checkSize colors = .ok () ∧ rank < colors ∧
      steps = [.symbol ((rankTable luma colors).at context) rank] := by
  obtain ⟨⟨⟩, sized, takes_symbol⟩ := Parse.Takes.of_check takes
  obtain ⟨rfl, inside⟩ := takes_readSymbol.mp takes_symbol
  rw [Table.table_at, symbols_rankTable luma (checkSize_eq_ok.mp sized)] at inside
  exact ⟨sized, inside, rfl⟩

theorem recodes_rank (luma : Bool) (colors context : Nat) :
    Recodes (readRank luma colors context) (writeRank luma colors context) := by
  intro steps rank takes
  obtain ⟨sized, inside, rfl⟩ := takes_rank takes
  exact .check sized (.check (checkSymbol_eq_ok.mpr inside) (codes_symbol _ _))

end Palette

end TileCoder
