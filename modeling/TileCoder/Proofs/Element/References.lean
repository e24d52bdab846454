import TileCoder.Element.References
import TileCoder.Proofs.Element.Follows

/-!
# References

A pair of references is read back choice by choice, down the tree that it was written along. The
second reference is another frame or there is none: a block that copies from its own frame has a
flag of its own, and no place in this tree.
-/

namespace TileCoder.RefPair

theorem restores_writeLater (farthest middle : Slot) {ref : Reference}
    (later : ref.isLater = true) :
    Restores (writeLater farthest middle ref) (readLater farthest middle) ref := by
  unfold writeLater readLater
  apply (restores_flag _ _).bind
  intro _ _
  by_cases alternate : ref = .alternate
  · subst alternate
    exact restores_pure () Reference.alternate
  simp only [alternate, ne_eq, not_false_eq_true, decide_false, Bool.false_eq_true, if_true,
    if_false]
  apply (restores_flag _ _).ending
  cases ref with
  | backward | alternate2 => rfl
  | _ => contradiction

theorem restores_writeEarlier (far lastOrLast2 last3OrGolden : Slot) {ref : Reference}
    (inter : ref.isInter = true) (forward : ref.isForward = true) :
    Restores (writeEarlier far lastOrLast2 last3OrGolden ref)
      (readEarlier far lastOrLast2 last3OrGolden) ref := by
  unfold writeEarlier readEarlier
  apply (restores_flag _ _).bind
  intro _ _
  by_cases isFar : ref = .last3 ∨ ref = .golden
  · simp only [isFar, decide_true, if_true]
    apply (restores_flag _ _).ending
    rcases isFar with rfl | rfl <;> rfl
  · simp only [isFar, decide_false, Bool.false_eq_true, if_false]
    apply (restores_flag _ _).ending
    cases ref with
    | last | last2 => rfl
    | last3 | golden => simp at isFar
    | _ => contradiction

theorem restores_writeSingle (near : Neighbours) {ref : Reference} (inter : ref.isInter = true) :
    Restores (writeSingle near ref) (readSingle near) ref := by
  unfold writeSingle readSingle
  apply (restores_flag _ _).bind
  intro _ _
  by_cases backward : ref.isBackward = true
  · rw [if_pos backward, if_pos backward]
    apply restores_writeLater
    rw [Reference.isLater, backward, inter]
    rfl
  · rw [if_neg backward, if_neg backward]
    apply restores_writeEarlier _ _ _ inter
    simpa [Reference.isBackward_eq_not_isForward] using backward

theorem restores_writeBothSides (near : Neighbours) {refs : RefPair}
    (inter : refs.first.isInter = true) (compound : refs.isCompound = true)
    (both : refs.isBidirectional = true) :
    Restores (writeBothSides near refs) (readBothSides near) refs := by
  obtain ⟨forward, backward⟩ := Bool.and_eq_true_iff.mp both
  have later : refs.second.isLater = true := Bool.and_eq_true_iff.mpr ⟨backward, compound⟩
  unfold writeBothSides readBothSides
  apply (restores_writeEarlier _ _ _ inter forward).bind
  intro _ _
  exact (restores_writeLater _ _ later).ending rfl

theorem restores_writeOneSide (near : Neighbours) {refs : RefPair}
    (one : refs.isUnidirectional = true) :
    Restores (writeOneSide near refs) (readOneSide near) refs := by
  have pair : refs = ⟨.backward, .alternate⟩ ∨ refs = ⟨.last, .last2⟩ ∨ refs = ⟨.last, .last3⟩ ∨
      refs = ⟨.last, .golden⟩ := by
    unfold isUnidirectional at one
    split at one <;> simp_all
  unfold writeOneSide readOneSide
  apply (restores_flag _ _).bind
  intro _ _
  rcases pair with rfl | rfl | pair
  · exact restores_pure () (⟨.backward, .alternate⟩ : RefPair)
  · exact (restores_flag _ _).ending rfl
  -- the other two differ in the last choice alone
  rcases pair with rfl | rfl
  all_goals
    apply (restores_flag _ _).bind
    intro _ _
    exact (restores_flag _ _).ending rfl

/-- References are read back, if the second is another frame or there is none. -/
theorem restores_write (site : Site) {refs : RefPair} (second : refs.second ≠ .intra) :
    Restores (write site refs) (read site) refs := by
  unfold write read
  apply Restores.given
  rintro ⟨inter, codable⟩
  have compound_of_coded : (if site.mayBeCompound then refs.isCompound else false) =
      refs.isCompound := by
    cases compound : refs.isCompound with
    | true => rw [(codable compound).1]; rfl
    | false => simp
  apply Restores.optional fun _ => restores_flag _ _
  rw [compound_of_coded]
  dsimp only
  by_cases compound : refs.isCompound = true
  · obtain ⟨-, sides⟩ := codable compound
    rw [if_pos compound, if_pos compound]
    apply (restores_flag _ _).bind
    intro _ _
    by_cases both : refs.isBidirectional = true
    · rw [if_pos both, if_pos both]
      exact restores_writeBothSides site.near inter compound both
    · rw [if_neg both, if_neg both]
      exact restores_writeOneSide site.near (sides.resolve_left both)
  · rw [if_neg compound, if_neg compound]
    apply (restores_writeSingle site.near inter).ending
    have nothing : refs.second = .none := by
      unfold isCompound at compound
      cases other : refs.second <;> simp_all [Reference.isInter]
    rw [← nothing]

end TileCoder.RefPair
