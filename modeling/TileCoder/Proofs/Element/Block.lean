import TileCoder.Element.ChromaFromLuma
import TileCoder.Element.Cut
import TileCoder.Proofs.Element.Follows

/-!
# How a block is cut, and how chroma follows luma

A partition is a symbol inside of the frame. At the edge it is a flag with the mass of several
partitions; these are different ones and never the first (`gathers_edgeSymbols`), so that the flag
can have both values.
-/

namespace TileCoder

namespace Partition

/-- Each size of a block has a table with its partitions. -/
theorem symbols_slot (site : Site) : site.slot.table.symbols = arity site.size := by
  unfold Site.slot arity
  split
  · rfl
  · split <;> rfl

theorem gathers_edgeSymbols (site : Site) : site.slot.table.Gathers site.edgeSymbols := by
  have distinct : (site.edge.2.map index).Nodup := by
    unfold Site.edge
    split <;> decide
  have positive : ∀ symbol ∈ site.edge.2.map index, 0 < symbol := by
    unfold Site.edge
    split <;> decide
  refine ⟨distinct.filter _, ?_⟩
  intro symbol member
  obtain ⟨among, below⟩ := List.mem_filter.mp member
  exact ⟨positive symbol among, by simpa using below⟩

theorem restores_gathered (site : Site) (flag : Bool) :
    Restores (Emit.one (.gathered site.slot site.edgeSymbols flag))
      (Parse.readGathered site.slot site.edgeSymbols) flag :=
  fun _ _ => .gathered (gathers_edgeSymbols site) (.done flag)

/-- Where only a split or one cut is possible, the flag tells which it is. -/
theorem restores_edge (site : Site) (partition : Partition) :
    Restores
      (if partition ≠ split ∧ partition ≠ site.edge.1 then
          (throw .invalidElement : Plan Unit) >>= fun _ =>
            Emit.one (.gathered site.slot site.edgeSymbols (decide (partition = split)))
        else Emit.one (.gathered site.slot site.edgeSymbols (decide (partition = split))))
      (Parse.readGathered site.slot site.edgeSymbols >>= fun isSplit =>
        pure (if isSplit then split else site.edge.1))
      partition := by
  apply Restores.unless
  intro possible
  apply (restores_gathered site _).ending
  by_cases isSplit : partition = split
  · simp [isSplit]
  · have other : partition = site.edge.1 :=
      Decidable.of_not_not fun different => possible ⟨isSplit, different⟩
    simp [isSplit, ← other]

theorem restores_write (site : Site) (partition : Partition) :
    Restores (write site partition) (read site) partition := by
  unfold write read
  apply Restores.given
  intro applies
  rw [if_neg (not_not_intro applies)]
  cases site.hasRows <;> cases site.hasColumns
  case true.true =>
    apply Restores.check
    rintro ⟨⟩ inside
    apply restores_symbol_ofOption _ (ofIndex?_index partition)
    rw [symbols_slot]
    exact checkSymbol_eq_ok.mp inside
  case false.false =>
    by_cases isSplit : partition = split
    · subst isSplit
      exact restores_pure () split
    · rw [if_pos isSplit]
      exact restores_throw _ _ _
  case true.false => exact restores_edge site partition
  case false.true => exact restores_edge site partition

end Partition

namespace LumaFactors

/-- Both signs are found again from their symbol. -/
theorem signsOf_jointSign {factors : LumaFactors}
    (coded : factors.blue.sign ≠ .zero ∨ factors.red.sign ≠ .zero) :
    signsOf factors.jointSign = (factors.blue.sign, factors.red.sign) ∧ factors.jointSign < 8 := by
  unfold signsOf jointSign
  revert coded
  cases factors.blue.sign <;> cases factors.red.sign <;> decide

theorem restores_writeScale {factor : LumaFactor} (valid : factor.IsValid) (other : FactorSign) :
    Restores (writeScale factor other) (readScale factor.sign other) factor := by
  unfold LumaFactor.IsValid at valid
  unfold writeScale readScale scaleSymbol
  by_cases zero : factor.sign = .zero
  · rw [if_pos zero] at valid
    rw [if_pos zero, if_pos zero, ← valid]
    exact restores_pure () factor
  · rw [if_neg zero] at valid
    rw [if_neg zero, if_neg zero]
    have inside : factor.scale - 1 < 16 := by omega
    apply (restores_symbol inside).ending
    rw [Nat.sub_add_cancel valid.1]

theorem restores_write (factors : LumaFactors) : Restores (write factors) read factors := by
  unfold write read
  apply Restores.given
  rintro ⟨coded, blue, red⟩
  obtain ⟨signs, inside⟩ := signsOf_jointSign coded
  apply (restores_symbol inside).bind
  intro _ _
  rw [signs]
  apply (restores_writeScale blue _).bind
  intro _ _
  exact (restores_writeScale red _).ending rfl

end LumaFactors

end TileCoder
