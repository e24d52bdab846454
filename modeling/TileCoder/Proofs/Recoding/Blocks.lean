import Mathlib.Tactic
import TileCoder.Element
import TileCoder.Proofs.Element.Block
import TileCoder.Proofs.Element.Modes
import TileCoder.Proofs.Element.Palette
import TileCoder.Proofs.Element.Segment
import TileCoder.Proofs.Element.Transform
import TileCoder.Proofs.Recoding.Paths

/-!
# Recoding the choices of a block

Most elements of a block are one symbol that numbers a case among all cases (`index_of_getElem?`), a
flag, or a tree of flags. For each of them, what is read passes the checks that writing begins with,
and takes back the way that it was read. A reader refuses a symbol which numbers no case, so that
this holds of any symbols whatever.
-/

namespace TileCoder

open Parse (takes_pure takes_readSymbol)
open Plan (codes_pure codes_symbol)

/-- In a list without repetitions a case is found at its own number alone. -/
theorem index_of_getElem? {α : Type} {cases : List α} (distinct : cases.Nodup) {index : α → Nat}
    (listed : ∀ value, cases[index value]? = some value) {i : Nat} {value : α}
    (found : cases[i]? = some value) : index value = i := by
  obtain ⟨inside, -⟩ := List.getElem?_eq_some_iff.mp (listed value)
  exact (List.getElem?_inj inside distinct).mp ((listed value).trans found.symm)

/-! ## Partitions -/

namespace Partition

theorem index_of_ofIndex? {i : Nat} {partition : Partition} (found : ofIndex? i = some partition) :
    partition.index = i :=
  index_of_getElem? (by decide) ofIndex?_index found

/-- At an edge of the frame the flag is that of a split. -/
theorem recodes_edge (site : Site) {steps : List Step} {partition : Partition}
    (takes : (Parse.readGathered site.slot site.edgeSymbols >>= fun isSplit =>
      pure (if isSplit then split else site.edge.1)).Takes steps partition) :
    Plan.Codes
      (if partition ≠ split ∧ partition ≠ site.edge.1 then
          (throw .invalidElement : Plan Unit) >>= fun _ =>
            Emit.one (.gathered site.slot site.edgeSymbols (decide (partition = split)))
        else Emit.one (.gathered site.slot site.edgeSymbols (decide (partition = split))))
      () steps := by
  have straight : site.edge.1 ≠ split := by
    unfold Site.edge
    split <;> simp
  rcases takes with _ | _ | @⟨_, _, isSplit, _, _, _, ⟨⟩⟩
  cases isSplit with
  | false => simp [straight, Plan.Codes, Emit.one, Emit.all]
  | true => simp [Plan.Codes, Emit.one, Emit.all]

theorem recodes (site : Site) : Recodes (read site) (write site) := by
  intro steps partition takes
  unfold read at takes
  unfold write
  split at takes
  · exact absurd takes Parse.not_takes_fail
  next applies =>
    refine .unless applies ?_
    generalize site.hasRows = rows at takes ⊢
    generalize site.hasColumns = columns at takes ⊢
    cases rows <;> cases columns
    case true.true =>
      obtain ⟨symbol, inside, rfl, found⟩ := takes.of_found
      rw [symbols_slot] at inside
      obtain rfl := index_of_ofIndex? found
      exact .check (checkSymbol_eq_ok.mpr inside) (codes_symbol _ _)
    case false.false =>
      obtain ⟨rfl, rfl⟩ := takes_pure.mp takes
      exact codes_pure ()
    case true.false => exact recodes_edge site takes
    case false.true => exact recodes_edge site takes

end Partition

/-! ## Chroma from luma -/

namespace LumaFactors

/-- A joint symbol is that of the signs it stands for, one of which is not zero. -/
theorem jointSign_of_signsOf {joint : Nat} (inside : joint < 8) :
    3 * (signsOf joint).1.index + (signsOf joint).2.index - 1 = joint ∧
      ((signsOf joint).1 ≠ .zero ∨ (signsOf joint).2 ≠ .zero) := by
  interval_cases joint <;> decide

theorem recodes_scale {sign other : FactorSign} {steps : List Step} {factor : LumaFactor}
    (takes : (readScale sign other).Takes steps factor) :
    factor.sign = sign ∧ factor.IsValid ∧ (writeScale factor other).Codes () steps := by
  unfold readScale at takes
  by_cases zero : sign = .zero
  · rw [if_pos zero] at takes
    obtain ⟨rfl, rfl⟩ := takes_pure.mp takes
    subst zero
    exact ⟨rfl, rfl, codes_pure ()⟩
  · rw [if_neg zero] at takes
    obtain ⟨symbol, rest, inside, rfl, last⟩ := takes.of_symbol
    obtain ⟨rfl, rfl⟩ := takes_pure.mp last
    have inside : symbol < 16 := inside
    refine ⟨rfl, ?_, ?_⟩
    · simp only [LumaFactor.IsValid, zero, if_false]
      omega
    · simp only [writeScale, scaleSymbol, zero, if_false, Nat.add_sub_cancel]
      exact codes_symbol _ _

theorem recodes : Recodes read write := by
  intro steps factors takes
  obtain ⟨joint, rest, inside, rfl, takes_scales⟩ := Parse.Takes.of_symbol takes
  obtain ⟨joint_eq, coded⟩ := jointSign_of_signsOf inside
  generalize signsOf joint = signs at takes_scales joint_eq coded
  obtain ⟨blue, red⟩ := signs
  obtain ⟨blueFactor, front, back, rfl, takes_blue, takes_last⟩ := takes_scales.of_bind
  obtain ⟨redFactor, rfl, takes_red⟩ := takes_last.of_map
  obtain ⟨rfl, blue_valid, blue_codes⟩ := recodes_scale takes_blue
  obtain ⟨rfl, red_valid, red_codes⟩ := recodes_scale takes_red
  unfold write
  refine .given ⟨coded, blue_valid, red_valid⟩ ?_
  rw [show jointSign ⟨blueFactor, redFactor⟩ = joint from joint_eq]
  exact .after (blue_codes.bind red_codes)

end LumaFactors

/-! ## Segments -/

namespace Segment

/-- A code whose number is in use is that of the number. -/
theorem interleave_deinterleave {code reference size : Int} (code_nonneg : 0 ≤ code)
    (value_nonneg : 0 ≤ deinterleave code reference size)
    (value_lt : deinterleave code reference size < size) (reference_nonneg : 0 ≤ reference) :
    interleave (deinterleave code reference size) reference size = code := by
  unfold deinterleave interleave at *
  dsimp only at *
  split_ifs at * <;> omega

theorem recodes (site : Site) : Recodes (read site) (write site) := by
  intro steps segment takes
  obtain ⟨⟨⟩, last, takes_context⟩ := Parse.Takes.of_check takes
  obtain ⟨⟨⟩, context, takes_code⟩ := takes_context.of_check
  obtain ⟨code, rest, inside, rfl, takes_value⟩ := takes_code.of_symbol
  obtain ⟨in_use, rfl, rfl⟩ := Parse.takes_guarded.mp takes_value
  have size_eq : site.size = (site.last + 1 : Nat) := rfl
  have known : checkSymbol (deinterleave code site.reference site.size).toNat (site.last + 1) =
      .ok () := checkSymbol_eq_ok.mpr (by omega)
  have same : interleave (deinterleave code site.reference site.size) site.reference site.size =
      code :=
    interleave_deinterleave (by omega) in_use.1 (by omega) (Int.natCast_nonneg _)
  refine .check last (.check known (.check context ?_))
  rw [Int.toNat_of_nonneg in_use.1, same]
  exact codes_symbol _ _

theorem recodes_predicted (context : Nat) :
    Recodes (readPredicted context) (writePredicted context) := by
  intro steps predicted takes
  obtain ⟨⟨⟩, inside, takes⟩ := Parse.Takes.of_check takes
  exact .check inside (recodes_flag rfl takes)

theorem recodes_alone : Recodes readAlone writeAlone := by
  intro steps segment takes
  obtain ⟨rfl, inside⟩ := takes_readSymbol.mp takes
  exact .check (checkSymbol_eq_ok.mpr inside) (codes_symbol _ _)

end Segment

/-! ## Transforms -/

namespace TransformKind

/-- Each set numbers its kinds without repetitions. -/
theorem symbol_of_kind? {set : TransformSet} {symbol : Nat} {kind : TransformKind}
    (found : set.kind? symbol = some kind) : kind ∈ set.kinds ∧ set.symbol kind = symbol := by
  have member : kind ∈ set.kinds := List.mem_of_getElem? found
  refine ⟨member, ?_⟩
  obtain ⟨inside, rfl⟩ := List.getElem?_eq_some_iff.mp found
  have distinct : set.kinds.Nodup := by cases set <;> decide
  rw [TransformSet.symbol, if_pos member]
  exact distinct.idxOf_getElem symbol inside

theorem recodes (site : Site) : Recodes (read site) (write site) := by
  intro steps kind takes
  unfold read at takes
  unfold write
  by_cases only : site.set = .dctOnly
  · rw [if_pos only] at takes
    obtain ⟨rfl, rfl⟩ := takes_pure.mp takes
    have member : dctDct ∈ site.set.kinds := by rw [only]; decide
    rw [if_neg (not_not_intro only)]
    exact .given member (codes_pure ())
  · rw [if_neg only] at takes
    obtain ⟨⟨⟩, directed, takes⟩ := Parse.Takes.of_check takes
    obtain ⟨symbol, inside, rfl, found⟩ := takes.of_found
    obtain ⟨member, rfl⟩ := symbol_of_kind? found
    rw [if_pos only]
    exact .given member (.check directed (codes_symbol _ _))

end TransformKind

namespace TransformSize

/-- Within the limit, splits lead to sizes that fit the block, each to another. -/
theorem depthOf?_atDepth {block : BlockSize} {depth : Nat} (choice : block ≠ .b4x4)
    (few : depth ≤ depthLimit block) :
    Fits block (atDepth block depth) ∧
      ((atDepth block depth).IsRect → block.AllowsRectTransform) ∧
      depthOf? block (atDepth block depth) = some depth := by
  have bounded : depth ≤ 2 := few.trans (Nat.min_le_left _ _)
  revert choice few
  interval_cases depth <;> cases block <;> decide

theorem recodes (site : Site) : Recodes (read site) (write site) := by
  intro steps size takes
  obtain ⟨choice, takes_depth⟩ := Parse.Takes.of_unless takes
  obtain ⟨depth, rest, inside, rfl, takes_size⟩ := takes_depth.of_symbol
  obtain ⟨few, takes_last⟩ := Parse.Takes.of_unless takes_size
  obtain ⟨rfl, rfl⟩ := takes_pure.mp takes_last
  obtain ⟨fits, rect, found⟩ := depthOf?_atDepth choice (Nat.le_of_not_lt few)
  unfold write
  refine .given fits (.unless (fun both => both.2 (rect both.1)) ?_)
  rw [found]
  exact codes_symbol _ _

theorem recodes_split (site : SplitSite) : Recodes (readSplit site) (writeSplit site) := by
  intro steps split takes
  obtain ⟨fits, takes⟩ := Parse.Takes.of_given takes
  unfold writeSplit
  refine .given fits ?_
  by_cases may : site.MaySplit
  · rw [if_pos may] at takes ⊢
    exact recodes_flag rfl takes
  · rw [if_neg may] at takes ⊢
    obtain ⟨rfl, rfl⟩ := takes_pure.mp takes
    exact codes_pure ()

end TransformSize

end TileCoder
