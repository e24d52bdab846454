import TileCoder.Element.Inter
import TileCoder.Element.Intra
import TileCoder.Proofs.Element.Follows

/-!
# Prediction modes

The modes of intra and inter blocks, and the choices that go with them. Most are the number of a
case as a symbol, and read back by looking it up among all cases; the inter modes with one reference
are runs of flags.
-/

namespace TileCoder

theorem FilterIntraMode.all_getElem? (mode : FilterIntraMode) : all[mode.ctorIdx]? = some mode := by
  cases mode <;> rfl

theorem InterpolationFilter.all_getElem? (filter : InterpolationFilter) :
    all[filter.ctorIdx]? = some filter := by
  cases filter <;> rfl

theorem MotionMode.all_getElem? (mode : MotionMode) : all[mode.ctorIdx]? = some mode := by
  cases mode <;> rfl

theorem InterIntraMode.all_getElem? (mode : InterIntraMode) : all[mode.ctorIdx]? = some mode := by
  cases mode <;> rfl

theorem CompoundType.all_getElem? (type : CompoundType) : all[type.ctorIdx]? = some type := by
  cases type <;> rfl

namespace Intra

theorem restores_writeLumaMode {slot : Slot}
    (symbols : slot.table.symbols = PredictionMode.intraModes) (mode : PredictionMode) :
    Restores (writeLumaMode slot mode) (readMode slot) mode := by
  unfold writeLumaMode readMode
  apply Restores.check
  rintro ⟨⟩ inside
  apply restores_symbol_ofOption _ (PredictionMode.ofIndex?_index mode)
  rw [symbols]
  exact checkSymbol_eq_ok.mp inside

theorem restores_writeChromaMode (luma : PredictionMode) (size : BlockSize)
    (mode : PredictionMode) :
    Restores (writeChromaMode luma size mode) (readChromaMode luma size) mode := by
  unfold writeChromaMode readChromaMode readMode
  apply Restores.check
  rintro ⟨⟩ isLuma
  apply Restores.check
  rintro ⟨⟩ inside
  rw [isLuma, Parse.liftM_ok_bind]
  exact restores_symbol_ofOption (checkSymbol_eq_ok.mp inside) (PredictionMode.ofIndex?_index mode)

theorem restores_writeAngleDelta (mode : PredictionMode) (delta : Int) :
    Restores (writeAngleDelta mode delta) (readAngleDelta mode) delta := by
  unfold writeAngleDelta readAngleDelta
  apply Restores.unless
  intro accepted
  obtain ⟨directional, small⟩ := not_or.mp accepted
  unfold maxAngleDelta at small
  have inside : (delta + maxAngleDelta).toNat < (angleSlot mode).table.symbols := by
    have alphabet : (angleSlot mode).table.symbols = 7 := rfl
    unfold maxAngleDelta
    omega
  rw [if_neg directional]
  apply (restores_symbol inside).ending
  congr 1
  unfold maxAngleDelta
  omega

theorem restores_writeFilterMode (mode : FilterIntraMode) :
    Restores (writeFilterMode mode) readFilterMode mode := by
  apply restores_symbol_ofOption _ mode.all_getElem?
  cases mode <;> decide

end Intra

namespace Inter

theorem restores_writeMode (context : Nat) (mode : PredictionMode) :
    Restores (writeMode context mode) (readMode context) mode := by
  unfold writeMode readMode
  apply Restores.given
  intro simple
  apply (restores_flag _ _).bind
  intro _ _
  by_cases new : mode = .newMv
  · subst new
    exact restores_pure () PredictionMode.newMv
  simp only [new, ne_eq, not_false_eq_true, decide_true, Bool.not_true, Bool.false_eq_true,
    if_true, if_false]
  apply (restores_flag _ _).bind
  intro _ _
  by_cases still : mode = .globalMv
  · subst still
    exact restores_pure () PredictionMode.globalMv
  simp only [still, not_false_eq_true, decide_true, Bool.not_true, Bool.false_eq_true,
    if_true, if_false]
  apply (restores_flag _ _).ending
  -- two flags were true, so that the last one tells the two remaining modes apart
  have listed : mode = .nearestMv ∨ mode = .nearMv := by simpa [new, still] using simple
  rcases listed with rfl | rfl <;> rfl

theorem restores_writeCompoundMode (context : Nat) (mode : PredictionMode) :
    Restores (writeCompoundMode context mode) (readCompoundMode context) mode := by
  unfold writeCompoundMode readCompoundMode
  apply Restores.given
  intro compound
  unfold PredictionMode.IsCompound at compound
  have inside : mode.index - PredictionMode.nearestNearestMv.index < 8 := by
    cases mode <;> decide
  apply (restores_symbol inside).ending
  rw [Nat.sub_add_cancel compound, PredictionMode.ofIndex?_index]
  rfl

theorem restores_writeInterIntraMode (size : BlockSize) (mode : InterIntraMode) :
    Restores (writeInterIntraMode size mode) (readInterIntraMode size) mode := by
  have inside : mode.ctorIdx < 4 := by cases mode <;> decide
  exact restores_symbol_ofOption inside mode.all_getElem?

theorem restores_writeWedge (size : BlockSize) (wedge : Nat) :
    Restores (writeWedge size wedge) (readWedge size) wedge := by
  unfold writeWedge readWedge
  apply Restores.check
  rintro ⟨⟩ inside
  exact restores_symbol (checkSymbol_eq_ok.mp inside)

theorem restores_writeCompoundType (size : BlockSize) (type : CompoundType) :
    Restores (writeCompoundType size type) (readCompoundType size) type := by
  have inside : type.ctorIdx < 2 := by cases type <;> decide
  exact restores_symbol_ofOption inside type.all_getElem?

theorem restores_writeMotionMode (size : BlockSize) (mayWarp : Bool) (mode : MotionMode) :
    Restores (writeMotionMode size mayWarp mode) (readMotionMode size mayWarp) mode := by
  unfold writeMotionMode readMotionMode
  cases mayWarp with
  | true =>
      have inside : mode.ctorIdx < 3 := by cases mode <;> decide
      exact restores_symbol_ofOption inside mode.all_getElem?
  | false =>
      apply Restores.unless
      intro unwarped
      apply (restores_flag _ _).ending
      cases mode with
      | warped => contradiction
      | _ => rfl

theorem restores_writeFilter (near : Neighbours) (direction : Nat) (refs : RefPair)
    (filter : InterpolationFilter) :
    Restores (writeFilter near direction refs filter) (readFilter near direction refs) filter := by
  unfold writeFilter readFilter
  apply Restores.check
  rintro ⟨⟩ inside
  exact restores_symbol_ofOption (checkSymbol_eq_ok.mp inside) filter.all_getElem?

/-! ### Candidates -/

/-- Flags say an index, if what they have said so far is the last index that they cannot exceed. -/
theorem restores_writeFlags (weights : List Nat) (index : Nat) {flags i said : Nat}
    (few : flags ≤ 2) (so_far : said = min i (max (weights.length - 1) (i + flags - 2))) :
    Restores (writeFlags weights index flags i) (readFlags weights flags i said) index := by
  induction flags generalizing i said with
  | zero =>
      rw [writeFlags, readFlags]
      by_cases is_last : index = min i (max (weights.length - 1) (i - 2))
      · rw [if_pos is_last, show said = index by omega]
        exact restores_pure () index
      · rw [if_neg is_last]
        exact restores_throw _ _ _
  | succ flags ih =>
      rw [writeFlags, readFlags]
      by_cases more : i + 1 < weights.length
      · rw [if_pos more, if_pos more]
        apply (restores_flag _ _).bind
        intro _ _
        by_cases further : i < index
        · rw [if_pos further, decide_eq_true further, if_pos rfl]
          exact ih (by omega) (by omega)
        · rw [if_neg further, decide_eq_false further, if_neg Bool.false_ne_true]
          by_cases here : index = i
          · rw [if_neg (not_not_intro here), here]
            exact restores_pure () i
          · rw [if_pos here]
            exact restores_throw _ _ _
      · rw [if_neg more, if_neg more]
        exact ih (by omega) (by omega)

/-- The index of a candidate is read back in the modes that have one. -/
theorem restores_writeCandidate {mode : PredictionMode} (indexed : firstCandidate? mode ≠ none)
    (weights : List Nat) (index : Nat) :
    Restores (writeCandidate mode weights index) (readCandidate mode weights) index := by
  unfold writeCandidate readCandidate
  cases found : firstCandidate? mode with
  | none => exact absurd found indexed
  | some first => exact restores_writeFlags weights index (Nat.le_refl 2) (by omega)

end Inter

end TileCoder
