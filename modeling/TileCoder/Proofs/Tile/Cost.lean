import Mathlib.Algebra.Order.BigOperators.Group.List
import TileCoder.Proofs.Element.Restoration
import TileCoder.Proofs.Range.Cost
import TileCoder.Proofs.Tile.Pieces
import TileCoder.Tile.Cost

/-!
# The cost of a restoration filter

What a filter would cost is worked out before it is written, by functions that make no digits. Each of
them follows the code that it counts: an eighth of it is the number of digits, for any parameters and
any value (`uniformCost_eq`, `binCost_eq`). The numbers of a filter are counted from what the plane
remembers at the start and written from what it remembers by then; these are the same because no number
of a filter is coded twice (`tapFields_nodup`).
-/

namespace TileCoder

open TileCoder.Range

/-! ## Integer codes -/

namespace Code

theorem uniformCost_eq (size value : Nat) :
    uniformCost size value = 8 * (uniform size value).length := by
  unfold uniformCost uniform
  split
  · rfl
  next more =>
    obtain ⟨width, short⟩ := uniformSplit size
    dsimp only
    by_cases early : value < short
    · rw [if_neg (by omega), if_pos early, Bits.length_ofNat, Nat.add_zero]
    · rw [if_pos (by omega), if_neg early, List.length_append, Bits.length_ofNat, Bits.length_ofNat,
        Nat.mul_add, Nat.mul_one]

theorem binCost_eq (size k i start value : Nat) :
    binCost size k i start value =
      8 * ((binFrom size k i start value).1 ++ (binFrom size k i start value).2.bits).length := by
  fun_induction binCost size k i start value with
  | case1 i start last =>
      rw [binFrom, if_pos last]
      exact uniformCost_eq _ _
  | case2 i start more further ih =>
      rw [binFrom, if_neg more, if_pos further, ih]
      obtain ⟨path, tail⟩ := binFrom size k (i + 1) (start + binSize i k) value
      dsimp only
      rw [List.cons_append, List.length_cons]
      omega
  | case3 i start more here =>
      rw [binFrom, if_neg more, if_neg here]
      simp only [BinTail.bits, List.singleton_append, List.length_cons, Bits.length_ofNat]
      omega

theorem subexpCost_eq (size k value : Nat) :
    subexpCost size k value = 8 * (subexpBelow size k value).length :=
  binCost_eq size k 0 0 value

theorem subexpAroundCost_eq (size k reference value : Nat) :
    subexpAroundCost size k reference value = 8 * (subexpAround size k reference value).length :=
  subexpCost_eq size k _

/-! No code of numbers below `size` has more than `size` digits. -/

theorem uniformCost_le (size value : Nat) : uniformCost size value ≤ 8 * size := by
  unfold uniformCost
  split
  · exact Nat.zero_le _
  next more =>
    have width_lt : size.log2 < size := (Nat.log2_lt (by omega)).mpr Nat.lt_two_pow_self
    unfold uniformSplit bitLength
    rw [if_neg (by omega)]
    dsimp only
    split <;> omega

theorem binCost_le (size k i start value : Nat) :
    binCost size k i start value ≤ 8 * (size - start) := by
  fun_induction binCost size k i start value with
  | case1 i start last => exact uniformCost_le _ _
  | case2 i start more further ih =>
      have positive := binSize_pos i k
      omega
  | case3 i start more here =>
      have width_lt : binWidth i k < binSize i k := Nat.lt_two_pow_self
      omega

end Code

/-! ## Steps that are bare bits -/

/-- Some steps put out bare bits and nothing else. -/
inductive SpellsBits : List Step → List Bool → Prop where
  | nil : SpellsBits [] []
  | bit (b : Bool) {steps : List Step} {bits : List Bool} :
      SpellsBits steps bits → SpellsBits (.bit b :: steps) (b :: bits)
  | remember (plane : Plane) (memory : RestorationMemory) {steps : List Step} {bits : List Bool} :
      SpellsBits steps bits → SpellsBits (.remember plane memory :: steps) bits

namespace SpellsBits

variable {steps more : List Step} {bits others : List Bool}

theorem ofBits (bits : List Bool) : SpellsBits (bits.map .bit) bits := by
  induction bits with
  | nil => exact .nil
  | cons b bits ih => exact .bit b ih

theorem append (first : SpellsBits steps bits) (second : SpellsBits more others) :
    SpellsBits (steps ++ more) (bits ++ others) := by
  induction first with
  | nil => exact second
  | bit b _ ih => exact .bit b ih
  | remember plane memory _ ih => exact .remember plane memory ih

/-- A plan puts out bare bits if its parts do. -/
theorem bind {α β : Type} {first : Plan α} {next : α → Plan β} {a : α}
    (ok : first.result = .ok a) (here : SpellsBits first.items bits)
    (later : SpellsBits (next a).items others) :
    SpellsBits (first >>= next).items (bits ++ others) := by
  rw [Emit.bind_of_ok ok]
  exact here.append later

/-- What the coder makes of such steps. -/
theorem coder_steps {σ : Type} [Output σ] (spells : SpellsBits steps bits) (tile : TileWriter σ) :
    (steps.foldl TileWriter.step tile).coder = bits.foldl Writer.bit tile.coder := by
  induction spells generalizing tile with
  | nil => rfl
  | bit b _ ih => exact ih (tile.step (.bit b))
  | remember plane memory _ ih => exact ih (tile.step (.remember plane memory))

end SpellsBits

namespace RestorationFilter

open RestorationMemory (Field)

variable {plane : Plane} {memory current : RestorationMemory} {field : Field} {value : Int}

/-! ## Numbers of a filter -/

/-- The digits of a number of a filter. -/
def fieldDigits (memory : RestorationMemory) (field : Field) (value : Int) : List Bool :=
  Code.signedSubexp field.range.low field.range.high field.range.k (memory.get field) value

theorem fieldCost_eq (memory : RestorationMemory) (field : Field) (value : Int) :
    fieldCost memory field value = 8 * (fieldDigits memory field value).length :=
  Code.subexpAroundCost_eq _ _ _ _

theorem fieldCost_le (memory : RestorationMemory) (field : Field) (value : Int) :
    fieldCost memory field value ≤ 1024 := by
  have few : Code.distance field.range.low field.range.high ≤ 128 := by
    rcases field with _ | _ | _ | _ | _ <;> exact of_decide_eq_true rfl
  have within : fieldCost memory field value ≤
      8 * (Code.distance field.range.low field.range.high - 0) := Code.binCost_le _ _ _ _ _
  omega

/-- Only what is remembered in the place of a number matters to its digits. -/
theorem spells_writeField (same : current.get field = memory.get field) :
    SpellsBits (writeField plane current field value).items (fieldDigits memory field value) := by
  have spells := (SpellsBits.ofBits (fieldDigits current field value)).append
    (.remember plane (current.set field value) .nil)
  rw [List.append_nil] at spells
  unfold fieldDigits at spells ⊢
  rw [← same]
  exact spells

theorem tapFields_nodup (plane : Plane) : (tapFields plane).Nodup := by
  cases plane <;> decide

theorem spells_writeTaps (plane : Plane) (vertical horizontal : WienerTaps) {fields : List Field}
    (distinct : fields.Nodup) (same : ∀ field ∈ fields, current.get field = memory.get field) :
    SpellsBits (writeTaps plane vertical horizontal current fields).items
      (fields.flatMap fun field => fieldDigits memory field (tap vertical horizontal field)) := by
  induction fields generalizing current with
  | nil => exact .nil
  | cons field rest ih =>
      obtain ⟨new, distinct_rest⟩ := List.nodup_cons.mp distinct
      obtain ⟨here, later⟩ := List.forall_mem_cons.mp same
      have still : ∀ other ∈ rest,
          (current.set field (tap vertical horizontal field)).get other = memory.get other := by
        intro other member
        have different : field ≠ other := fun eq => new (eq ▸ member)
        rw [RestorationMemory.get_set_of_ne _ _ different]
        exact later other member
      exact (spells_writeField here).append (ih distinct_rest still)

theorem tapsCost_eq (memory : RestorationMemory) (vertical horizontal : WienerTaps)
    (fields : List Field) :
    (fields.map fun field => fieldCost memory field (tap vertical horizontal field)).sum =
      8 * (fields.flatMap fun field =>
        fieldDigits memory field (tap vertical horizontal field)).length := by
  induction fields with
  | nil => rfl
  | cons field rest ih =>
      rw [List.map_cons, List.sum_cons, List.flatMap_cons, List.length_append, Nat.mul_add,
        fieldCost_eq, ih]

/-! ## Weights -/

/-- The digits of a weight: none if it is implied. -/
def weightDigits (coded : Bool) (memory : RestorationMemory) (field : Field) (value : Int) :
    List Bool :=
  if coded then fieldDigits memory field value else []

theorem weightCost_eq (coded : Bool) (memory : RestorationMemory) (field : Field) (value : Int) :
    (if coded then fieldCost memory field value else 0) =
      8 * (weightDigits coded memory field value).length := by
  unfold weightDigits
  cases coded with
  | true => exact fieldCost_eq memory field value
  | false => rfl

/-- A weight is coded or kept, and is remembered in either case. -/
theorem spells_weight (plane : Plane) (coded : Bool) (value : Int)
    (same : current.get field = memory.get field) :
    let put := if coded then writeField plane else keepField plane
    SpellsBits (put current field value).items (weightDigits coded memory field value) ∧
      (put current field value).result = .ok (current.set field value) := by
  cases coded with
  | true => exact ⟨spells_writeField same, rfl⟩
  | false => exact ⟨.remember plane _ .nil, rfl⟩

theorem spells_writeWeights (plane : Plane) (memory : RestorationMemory) (set : Nat)
    (first second : Int) :
    SpellsBits
      (do
        Plan.literal setDigits set
        let put (coded : Bool) := if coded then writeField plane else keepField plane
        let memory ← put (passes set).1 memory .firstWeight first
        let _ ← put (passes set).2 memory .secondWeight second : Plan Unit).items
      (Bits.ofNat setDigits set ++
        (weightDigits (passes set).1 memory .firstWeight first ++
          weightDigits (passes set).2 memory .secondWeight second)) := by
  have start : memory.get .firstWeight = memory.get .firstWeight := rfl
  obtain ⟨first_spells, first_ok⟩ := spells_weight plane (passes set).1 first start
  have still : (memory.set .firstWeight first).get .secondWeight = memory.get .secondWeight :=
    RestorationMemory.get_set_of_ne memory first nofun
  obtain ⟨second_spells, second_ok⟩ := spells_weight plane (passes set).2 second still
  refine (SpellsBits.ofBits _).bind rfl (first_spells.bind first_ok ?_)
  rw [← List.append_nil (weightDigits (passes set).2 memory .secondWeight second)]
  exact second_spells.bind second_ok .nil

/-! ## Filters -/

/-- The digits of all that follows the kind of a filter. -/
def detailDigits (plane : Plane) (memory : RestorationMemory) : RestorationFilter → List Bool
  | none => []
  | wiener vertical horizontal =>
      (tapFields plane).flatMap fun field =>
        fieldDigits memory field (tap vertical horizontal field)
  | selfGuided set first second =>
      Bits.ofNat setDigits set ++
        (weightDigits (passes set).1 memory .firstWeight first ++
          weightDigits (passes set).2 memory .secondWeight second)

theorem detailCost_eq (plane : Plane) (memory : RestorationMemory) (filter : RestorationFilter) :
    filter.detailCost plane memory = 8 * (filter.detailDigits plane memory).length := by
  cases filter with
  | none => rfl
  | wiener vertical horizontal => exact tapsCost_eq memory vertical horizontal (tapFields plane)
  | selfGuided set first second =>
      unfold detailCost detailDigits
      dsimp only
      rw [weightCost_eq, weightCost_eq, List.length_append, List.length_append, Bits.length_ofNat]
      omega

/-- A unit that may have any filter puts out the kind, and then bare bits only. -/
theorem items_write {plane : Plane} (memory : RestorationMemory) {filter : RestorationFilter}
    (codable : IsCodable .switchable plane filter) :
    ∃ rest, (write ⟨.switchable, plane, memory⟩ filter).items =
        .symbol Table.restoration.only filter.kindSymbol :: rest ∧
      SpellsBits rest (filter.detailDigits plane memory) := by
  unfold write
  rw [if_neg (not_not_intro codable)]
  cases filter with
  | none => exact ⟨[], rfl, .nil⟩
  | wiener vertical horizontal =>
      exact ⟨_, rfl, spells_writeTaps plane vertical horizontal (tapFields_nodup plane)
        fun _ _ => rfl⟩
  | selfGuided set first second =>
      exact ⟨_, rfl, spells_writeWeights plane memory set first second⟩

theorem detailCost_le (plane : Plane) (memory : RestorationMemory) (filter : RestorationFilter) :
    filter.detailCost plane memory ≤ 6144 := by
  cases filter with
  | none => exact Nat.zero_le _
  | wiener vertical horizontal =>
      have few : (tapFields plane).length ≤ 6 := by cases plane <;> decide
      have bound := List.sum_le_card_nsmul
        ((tapFields plane).map fun field => fieldCost memory field (tap vertical horizontal field))
        1024 (List.forall_mem_map.mpr fun field _ => fieldCost_le memory field _)
      rw [List.length_map, smul_eq_mul] at bound
      exact bound.trans (Nat.mul_le_mul_right 1024 few)
  | selfGuided set first second =>
      have first_le := fieldCost_le memory .firstWeight first
      have second_le := fieldCost_le memory .secondWeight second
      unfold detailCost setDigits
      dsimp only
      split <;> split <;> omega

end RestorationFilter

/-- **What is counted is what is written.** The costs of numbers are eight times their digits, for any
parameters and values. In any tile a filter that its unit may have puts out the symbol of its kind and
then bare bits only; its cost is that of the symbol and eight for each of the bits, as a word. No word
is too small for it if the tables can be coded with and the position of the tile can be told. -/
theorem counted_eq_written {σ : Type} [Output σ] :
    (∀ size value,
      Code.uniformCost size value = 8 * ((Number.uniform size).bits value).length) ∧
    (∀ size k value,
      Code.subexpCost size k value = 8 * ((Number.subexpBelow size k).bits value).length) ∧
    (∀ size k reference value, Code.subexpAroundCost size k reference value =
      8 * ((Number.subexpAround size k reference).bits value).length) ∧
    ∀ (tile : TileWriter σ) plane filter,
      RestorationFilter.IsCodable .switchable plane filter →
        let plan := (tile.memories.unit .switchable plane).write filter
        let kinds := tile.tables.get Table.restoration.only
        plan.result = .ok () ∧ ∃ rest bits,
          plan.items = .symbol Table.restoration.only filter.kindSymbol :: rest ∧
          SpellsBits rest bits ∧
          (tile.run plan).2.coder =
            bits.foldl Writer.bit (tile.coder.symbol kinds filter.kindSymbol) ∧
          tile.restorationCost plane filter =
            (tile.coder.symbolCost kinds filter.kindSymbol + 8 * bits.length) % wordSize ∧
          (tile.coder.Gauged → tile.tables.Codable →
            tile.restorationCost plane filter =
              tile.coder.symbolCost kinds filter.kindSymbol + 8 * bits.length) := by
  refine ⟨Code.uniformCost_eq, Code.subexpCost_eq, Code.subexpAroundCost_eq, ?_⟩
  intro tile plane filter fits plan kinds
  obtain ⟨rest, items_eq, spells⟩ := RestorationFilter.items_write (tile.memories.get plane) fits
  refine ⟨PlaneMemories.accepted_unit _ fits, rest, _, items_eq, spells, ?_, ?_, ?_⟩
  · show (plan.items.foldl TileWriter.step tile).coder = _
    rw [show plan.items = _ from items_eq, List.foldl_cons, spells.coder_steps]
    exact congrArg (List.foldl Writer.bit · _) (tile.coder_symbol _ _)
  · rw [← filter.detailCost_eq]
    rfl
  · intro gauged codable
    have holds : Table.restoration.only.Holds kinds := codable Table.restoration.only
    have inside : filter.kindSymbol < kinds.arity := by
      rw [holds.arity_eq]
      cases filter <;> exact of_decide_eq_true rfl
    have few := Nat.add_lt_add_of_lt_of_le (gauged.symbolCost_lt holds.usable inside)
      (filter.detailCost_le plane (tile.memories.get plane))
    rw [← filter.detailCost_eq]
    exact Nat.mod_eq_of_lt (few.trans (by decide))

/-- A Wiener filter of a chroma plane, in the middle of a tile. -/
theorem counted_eq_written_chroma :
    let memory : RestorationMemory := ⟨⟨0, 5, -17⟩, ⟨0, -23, 46⟩, 0, 0⟩
    let tile : TileWriter Recording :=
      { coder := Writer.new.symbol [32767, 32764, 0, 5] 1
        tables := .initial
        log := .empty
        adapts := true
        memories := PlaneMemories.initial.set .blue memory }
    let filter : RestorationFilter := .wiener ⟨0, 8, 46⟩ ⟨0, -23, 45⟩
    let plan := (tile.memories.unit .switchable .blue).write filter
    let kinds := tile.tables.get Table.restoration.only
    tile.coder.Gauged ∧ tile.tables.Codable ∧
      RestorationFilter.IsCodable .switchable .blue filter ∧ ∃ rest bits,
        plan.items = .symbol Table.restoration.only 1 :: rest ∧ SpellsBits rest bits ∧
        tile.restorationCost .blue filter = tile.coder.symbolCost kinds 1 + 8 * bits.length := by
  intro memory tile filter plan kinds
  have gauged : tile.coder.Gauged :=
    (Writer.Reachable.new.symbol ⟨by decide, by decide⟩ (by decide)).gauged
  have fits : RestorationFilter.IsCodable .switchable .blue filter := by decide
  obtain ⟨-, rest, bits, items_eq, spells, -, -, cost_eq⟩ :=
    counted_eq_written.2.2.2 tile .blue filter fits
  exact ⟨gauged, Tables.codable_initial, fits, rest, bits, items_eq, spells,
    cost_eq gauged Tables.codable_initial⟩

end TileCoder
