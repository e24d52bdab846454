import TileCoder.Element.TransformTree
import TileCoder.Proofs.Element.Follows

/-!
# Kinds and sizes of transforms

A kind is read back from its number in the set that the block chooses from, and a size from the
number of splits that lead to it.
-/

namespace TileCoder

namespace TransformKind

/-- A set that offers a choice has a table for it. -/
theorem symbol_lt {site : Site} {kind : TransformKind} (choice : site.set ≠ .dctOnly)
    (member : kind ∈ site.set.kinds) : site.set.symbol kind < site.slot.table.symbols := by
  have listed : site.set.symbol kind < site.set.kinds.length := by
    rw [TransformSet.symbol, if_pos member]
    exact List.idxOf_lt_length_iff.mpr member
  refine Nat.lt_of_lt_of_eq listed ?_
  unfold Site.slot
  revert choice
  generalize site.set = set
  cases set with
  | dctOnly => intro choice; contradiction
  | _ => intro _; rfl

theorem restores_write (site : Site) (kind : TransformKind) :
    Restores (write site kind) (read site) kind := by
  unfold write read
  apply Restores.given
  intro member
  by_cases only : site.set = .dctOnly
  · rw [only] at member
    obtain rfl : kind = dctDct := by simpa [TransformSet.kinds] using member
    rw [if_neg (not_not_intro only), if_pos only]
    exact restores_pure () dctDct
  · rw [if_pos only, if_neg only]
    apply Restores.check
    rintro ⟨⟩ directed
    rw [directed]
    exact restores_symbol_ofOption (symbol_lt only member) (TransformSet.kind?_symbol member)

end TransformKind

namespace TransformSize

/-- What is found as the number of splits is one, within the limit. -/
theorem atDepth_of_depthOf? {block : BlockSize} {size : TransformSize} {depth : Nat}
    (found : depthOf? block size = some depth) :
    atDepth block depth = size ∧ depth ≤ depthLimit block := by
  have among := List.mem_of_find?_eq_some found
  have holds := List.find?_some found
  rw [List.mem_range] at among
  exact ⟨by simpa using holds, by omega⟩

/-- The table of a block has a symbol for each number of splits. -/
theorem depthLimit_lt (site : Site) : depthLimit site.block < site.slot.table.symbols := by
  have alphabet : site.slot.table.symbols = if category site.block = 0 then 2 else 3 := by
    unfold Site.slot
    dsimp only
    cases category site.block <;> rfl
  rw [alphabet]
  unfold depthLimit category maxDepth
  split <;> omega

theorem restores_write (site : Site) (size : TransformSize) :
    Restores (write site size) (read site) size := by
  unfold write read
  apply Restores.given
  intro fits
  apply Restores.unless
  intro _
  split
  case h_1 => exact restores_throw _ _ _
  case h_2 depth found =>
    obtain ⟨reached, few⟩ := atDepth_of_depthOf? found
    rw [if_neg fits.1]
    apply (restores_symbol (Nat.lt_of_le_of_lt few (depthLimit_lt site))).ending
    rw [if_neg (Nat.not_lt.mpr few), reached]

theorem restores_writeSplit (site : SplitSite) (split : Bool) :
    Restores (writeSplit site split) (readSplit site) split := by
  unfold writeSplit readSplit
  apply Restores.given
  intro fits
  rw [if_neg (not_not_intro fits)]
  by_cases may : site.MaySplit
  · rw [if_pos may, if_pos may]
    exact restores_flag _ split
  · rw [if_neg may, if_neg may]
    cases split with
    | true => exact restores_throw _ _ _
    | false => exact restores_pure () false

end TransformSize

end TileCoder
