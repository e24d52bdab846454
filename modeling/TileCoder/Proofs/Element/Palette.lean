import Mathlib.Data.List.GetD
import Mathlib.Tactic
import TileCoder.Proofs.Element.Digits
import TileCoder.Proofs.Element.Ranking

/-!
# Palettes and colour maps

A map is coded along its anti-diagonals, as many as a machine word counts (`mem_wavefront`): all of
them, if the entries of the map can be counted (`mem_positions`). They come in order
(`wavefront_sorted`), so that the neighbours that a colour is ranked by are known when it is read,
and its rank is taken back to the colour (`exists_rank`).
-/

namespace TileCoder.Palette

/-! ## The order of positions -/

/-- The diagonal of a position. -/
def diagonal (position : Nat × Nat) : Nat := position.1 + position.2

theorem mem_wavefront {width height row column : Nat} (wide : 0 < width) (high : 0 < height) :
    (row, column) ∈ wavefront width height ↔
      (row < height ∧ column < width ∧ 0 < row + column) ∧ row + column < diagonals width height := by
  simp only [wavefront, List.mem_flatMap, List.mem_map, List.mem_range, Prod.mk.injEq]
  constructor
  · rintro ⟨before, inside, step, few, rfl, rfl⟩
    omega
  · rintro ⟨⟨row_lt, column_lt, positive⟩, counted⟩
    exact ⟨row + column - 1, by omega, min (row + column) (width - 1) - column, by omega, by omega,
      by omega⟩

/-- No diagonal is missed if the sum of the extents is no more than one too large for a word. -/
theorem diagonals_of_le {width height : Nat} (wide : 0 < width)
    (fits : width + height ≤ addressSpace) : diagonals width height = width + height - 1 := by
  unfold diagonals addressSpace at *
  omega

/-- One diagonal comes after another. -/
theorem wavefront_sorted (width height : Nat) :
    (wavefront width height).Pairwise fun p q => diagonal p ≤ diagonal q := by
  have on_diagonal {before : Nat} {position : Nat × Nat}
      (member : position ∈ (List.range (min (before + 1) (width - 1) + 1 -
        (before + 1 - (height - 1)))).map fun step =>
          (before + 1 - (min (before + 1) (width - 1) - step),
            min (before + 1) (width - 1) - step)) : diagonal position = before + 1 := by
    obtain ⟨step, -, rfl⟩ := List.mem_map.mp member
    unfold diagonal
    omega
  rw [wavefront, List.pairwise_flatMap]
  constructor
  · intro before _
    apply List.pairwise_of_forall_mem_list
    intro p hp q hq
    rw [on_diagonal hp, on_diagonal hq]
  · apply List.pairwise_lt_range.imp
    intro first second order p hp q hq
    rw [on_diagonal hp, on_diagonal hq]
    omega

/-! ## Maps -/

theorem mem_positions {site : MapSite} {row column : Nat} (wide : 0 < site.width)
    (high : 0 < site.height) (counted : site.area < addressSpace) :
    (row, column) ∈ site.positions ↔
      row < site.height ∧ column < site.width ∧ 0 < row + column := by
  -- the extents add up to no more than a word if the product of them is one
  have sum_le : site.width + site.height - 1 ≤ site.area :=
    Nat.add_sub_one_le_mul wide.ne' high.ne'
  rw [MapSite.positions, mem_wavefront wide high, diagonals_of_le wide (by omega)]
  omega

/-- A map that is read holds the colours of the map that is written, save for some positions. -/
def Known (site : MapSite) (map target : Array Nat) (rest : List (Nat × Nat)) : Prop :=
  ∀ row column, row < site.height → column < site.width → (row, column) ∉ rest →
    target[row * site.width + column]? = map[row * site.width + column]?

section Known

variable {site : MapSite} {map target : Array Nat} {row column : Nat} {rest : List (Nat × Nat)}

/-- What lies on an earlier diagonal than the next position is known. -/
theorem Known.of_diagonal_lt (known : Known site map target ((row, column) :: rest))
    (sorted : ∀ q ∈ rest, diagonal (row, column) ≤ diagonal q) {r c : Nat} (r_lt : r < site.height)
    (c_lt : c < site.width) (earlier : r + c < row + column) :
    target[r * site.width + c]? = map[r * site.width + c]? := by
  apply known r c r_lt c_lt
  intro member
  rcases List.mem_cons.mp member with same | behind
  · obtain ⟨rfl, rfl⟩ := Prod.mk.inj same
    exact Nat.lt_irrefl _ earlier
  · exact Nat.not_le.mpr earlier (sorted _ behind)

/-- The neighbours of the next position are known, so its colour is ranked in the same way. -/
theorem Known.scores_eq (known : Known site map target ((row, column) :: rest))
    (sorted : ∀ q ∈ rest, diagonal (row, column) ≤ diagonal q) (row_lt : row < site.height)
    (column_lt : column < site.width) :
    scores target site.width row column = scores map site.width row column := by
  have beside (inside : 0 < column) : target[row * site.width + column - 1]? =
      map[row * site.width + column - 1]? := by
    rw [Nat.add_sub_assoc inside]
    exact known.of_diagonal_lt sorted row_lt (by omega) (by omega)
  have corner (below : 0 < row) (inside : 0 < column) :
      target[(row - 1) * site.width + column - 1]? = map[(row - 1) * site.width + column - 1]? := by
    rw [Nat.add_sub_assoc inside]
    exact known.of_diagonal_lt sorted (by omega) (by omega) (by omega)
  have above (below : 0 < row) :
      target[(row - 1) * site.width + column]? = map[(row - 1) * site.width + column]? :=
    known.of_diagonal_lt sorted (by omega) column_lt (by omega)
  have around : Around.of target site.width row column = Around.of map site.width row column := by
    unfold Around.of
    by_cases below : 0 < row <;> by_cases inside : 0 < column <;>
      simp [below, inside, beside, corner, above]
  rw [scores, scores, around]

theorem Known.colorContext_eq (known : Known site map target ((row, column) :: rest))
    (sorted : ∀ q ∈ rest, diagonal (row, column) ≤ diagonal q) (row_lt : row < site.height)
    (column_lt : column < site.width) :
    colorContext target site.width row column site.colors =
      colorContext map site.width row column site.colors := by
  unfold colorContext ranking
  rw [known.scores_eq sorted row_lt column_lt]

end Known

/-- Puts the colour of a position into a map that is read. -/
def paint (site : MapSite) (map target : Array Nat) (position : Nat × Nat) : Array Nat :=
  let i := position.1 * site.width + position.2
  target.setIfInBounds i (map.getD i 0)

/-- Positions of a map have entries of their own. -/
theorem entry_injective {site : MapSite} {p q : Nat × Nat} (p_inside : p.2 < site.width)
    (q_inside : q.2 < site.width)
    (same : p.1 * site.width + p.2 = q.1 * site.width + q.2) : p = q := by
  have wide : 0 < site.width := by omega
  have columns : p.2 = q.2 := by
    have := congrArg (· % site.width) same
    simpa [Nat.mod_eq_of_lt, p_inside, q_inside] using this
  have rows : p.1 = q.1 := by
    rw [columns, Nat.add_right_cancel_iff] at same
    exact Nat.eq_of_mul_eq_mul_right wide same
  exact Prod.ext rows columns

theorem entry_lt_area {site : MapSite} {row column : Nat} (row_lt : row < site.height)
    (column_lt : column < site.width) : row * site.width + column < site.area := by
  have : (row + 1) * site.width ≤ site.height * site.width := Nat.mul_le_mul_right _ row_lt
  rw [Nat.add_mul, Nat.one_mul] at this
  unfold MapSite.area
  rw [Nat.mul_comm site.width]
  omega

/-- Every entry of a map is that of a position. -/
theorem exists_entry {site : MapSite} {i : Nat} (below : i < site.area) :
    ∃ row column, row < site.height ∧ column < site.width ∧ row * site.width + column = i := by
  unfold MapSite.area at below
  have wide : 0 < site.width := Nat.pos_of_mul_pos_right (Nat.zero_lt_of_lt below)
  refine ⟨i / site.width, i % site.width, Nat.div_lt_of_lt_mul below, Nat.mod_lt _ wide, ?_⟩
  rw [Nat.mul_comm, Nat.div_add_mod]

theorem Known.paint {site : MapSite} {map target : Array Nat} {position : Nat × Nat}
    {rest : List (Nat × Nat)} (known : Known site map target (position :: rest))
    (inside : position.1 < site.height ∧ position.2 < site.width) (whole : site.area ≤ map.size)
    (room : site.area ≤ target.size) : Known site map (paint site map target position) rest := by
  intro row column row_lt column_lt notLater
  have entry_lt := entry_lt_area inside.1 inside.2
  unfold Palette.paint
  dsimp only
  rw [Array.getElem?_setIfInBounds]
  by_cases same : position = (row, column)
  · subst same
    rw [if_pos rfl, if_pos (by omega), Array.getD_eq_getD_getElem?,
      Array.getElem?_eq_getElem (by omega), Option.getD_some]
  · have different : position.1 * site.width + position.2 ≠ row * site.width + column :=
      fun entries => same (entry_injective inside.2 column_lt entries)
    rw [if_neg different]
    apply known row column row_lt column_lt
    intro member
    rcases List.mem_cons.mp member with here | later
    · exact same here.symm
    · exact notLater later

@[simp] theorem size_paint (site : MapSite) (map target : Array Nat) (position : Nat × Nat) :
    (paint site map target position).size = target.size := by
  simp [paint]

/-! ## What is written -/

theorem checkSize_eq_ok {colors : Nat} :
    checkSize colors = .ok () ↔ minColors ≤ colors ∧ colors ≤ maxColors := by
  unfold checkSize
  split <;> simp_all

theorem checkColors_eq_ok {colors : Nat} {list : List Nat} :
    checkColors colors list = .ok () ↔ ∀ color ∈ list, color < colors := by
  induction list with
  | nil => simp [checkColors]
  | cons color rest ih =>
      rw [checkColors, List.forall_mem_cons, ← ih]
      by_cases inside : color < colors
      · rw [checkSymbol_eq_ok.mpr inside]
        exact (and_iff_right inside).symm
      · have refused : checkSymbol color colors = .error (.invalidSymbol color colors) := by
          rw [checkSymbol, if_neg inside]
        rw [refused]
        simp [inside, bind, Except.bind]

/-- Each number of colours has a table of its ranks. -/
theorem symbols_rankTable (luma : Bool) {colors : Nat}
    (range : minColors ≤ colors ∧ colors ≤ maxColors) :
    (rankTable luma colors).symbols = colors := by
  obtain ⟨low, high⟩ := range
  unfold minColors at low
  unfold maxColors at high
  interval_cases colors <;> cases luma <;> rfl

theorem restores_writeLuma (near : Neighbours) (size : BlockSize) (enabled : Bool) :
    Restores (writeLuma near size enabled) (readLuma near size) enabled := by
  unfold writeLuma readLuma
  apply Restores.check
  intro context allowed
  rw [allowed, Parse.liftM_ok_bind]
  exact restores_flag _ enabled

theorem restores_writeSize (luma : Bool) (size : BlockSize) (colors : Nat) :
    Restores (writeSize luma size colors) (readSize luma size) colors := by
  unfold writeSize readSize
  apply Restores.check
  rintro ⟨⟩ sized
  apply Restores.check
  intro context allowed
  rw [allowed, Parse.liftM_ok_bind]
  obtain ⟨low, high⟩ := checkSize_eq_ok.mp sized
  have inside : colors - minColors < (sizeSlot luma context).table.symbols := by
    have alphabet : (sizeSlot luma context).table.symbols = 7 := by cases luma <;> rfl
    unfold minColors maxColors at *
    omega
  apply (restores_symbol inside).ending
  rw [Nat.sub_add_cancel low]

theorem restores_writeRank (luma : Bool) (colors context rank : Nat) :
    Restores (writeRank luma colors context rank) (readRank luma colors context) rank := by
  unfold writeRank readRank
  apply Restores.check
  rintro ⟨⟩ sized
  apply Restores.check
  rintro ⟨⟩ inside
  rw [sized, Parse.liftM_ok_bind]
  apply restores_symbol
  rw [Table.table_at, symbols_rankTable luma (checkSize_eq_ok.mp sized)]
  exact checkSymbol_eq_ok.mp inside

/-- The colours at some positions are read into a map that holds all others. -/
theorem restores_writeRanks {site : MapSite} {map target : Array Nat}
    {positions : List (Nat × Nat)} (few : site.colors ≤ maxColors)
    (colored : ∀ i < site.area, map.getD i 0 < site.colors) (whole : site.area ≤ map.size)
    (room : site.area ≤ target.size)
    (inside : ∀ p ∈ positions, p.1 < site.height ∧ p.2 < site.width)
    (sorted : positions.Pairwise fun p q => diagonal p ≤ diagonal q)
    (known : Known site map target positions) :
    Restores (writeRanks site map positions) (readRanks site positions target)
      (positions.foldl (paint site map) target) := by
  induction positions generalizing target with
  | nil => exact restores_pure () target
  | cons position rest ih =>
      obtain ⟨row, column⟩ := position
      obtain ⟨row_lt, column_lt⟩ := inside (row, column) List.mem_cons_self
      obtain ⟨later, rest_sorted⟩ := List.pairwise_cons.mp sorted
      -- the ranking only looks at neighbours on earlier diagonals, which both maps have in common
      have same := known.colorContext_eq later row_lt column_lt
      have color := colored _ (entry_lt_area row_lt column_lt)
      obtain ⟨rank, -, ranked, back⟩ := exists_rank map site.width row column few color
      have next := ih (by rwa [size_paint])
        (fun p member => inside p (List.mem_cons_of_mem _ member)) rest_sorted
        (known.paint ⟨row_lt, column_lt⟩ whole room)
      rw [writeRanks, readRanks, same]
      dsimp only
      rw [ranked]
      apply (restores_writeRank _ _ _ _).bind
      intro _ _
      rw [back]
      exact next

/-! ## Whole maps -/

/-- A map with the colours of another one in its first entries. -/
def copyColors (site : MapSite) (map target : Array Nat) : Array Nat :=
  site.positions.foldl (paint site map) (target.setIfInBounds 0 (map.getD 0 0))

theorem checkExtent_eq_ok {site : MapSite} {length : Nat} :
    site.checkExtent length = .ok () ↔
      0 < site.width ∧ 0 < site.height ∧ site.area < addressSpace ∧ site.area ≤ length := by
  unfold MapSite.checkExtent
  split_ifs <;> simp only [false_iff, true_iff] <;> omega

theorem size_foldl_paint (site : MapSite) (map target : Array Nat) (positions : List (Nat × Nat)) :
    (positions.foldl (paint site map) target).size = target.size := by
  induction positions generalizing target with
  | nil => rfl
  | cons position rest ih => rw [List.foldl_cons, ih, size_paint]

@[simp] theorem size_copyColors (site : MapSite) (map target : Array Nat) :
    (copyColors site map target).size = target.size := by
  rw [copyColors, size_foldl_paint, Array.size_setIfInBounds]

theorem Known.foldl {site : MapSite} {map target : Array Nat} {positions : List (Nat × Nat)}
    (known : Known site map target positions)
    (inside : ∀ p ∈ positions, p.1 < site.height ∧ p.2 < site.width) (whole : site.area ≤ map.size)
    (room : site.area ≤ target.size) :
    Known site map (positions.foldl (Palette.paint site map) target) [] := by
  induction positions generalizing target with
  | nil => exact known
  | cons position rest ih =>
      obtain ⟨here, later⟩ := List.forall_mem_cons.mp inside
      exact ih (known.paint here whole room) later (by rwa [size_paint])

section Whole

variable {site : MapSite} {map target : Array Nat}

/-- The colours of a map that passes its check are those of its palette. -/
theorem getD_lt_of_checkColors {colors area : Nat}
    (colored : checkColors colors (map.toList.take area) = .ok ()) (whole : area ≤ map.size) :
    ∀ i < area, map.getD i 0 < colors := by
  intro i below
  apply checkColors_eq_ok.mp colored
  rw [Array.getD_eq_getD_getElem?, Array.getElem?_eq_getElem (by omega), Option.getD_some,
    List.mem_take_iff_getElem]
  exact ⟨i, by simp; omega, by simp⟩

/-- Before the first position on a diagonal, only the corner of the map is known. -/
theorem known_start (wide : 0 < site.width) (high : 0 < site.height)
    (counted : site.area < addressSpace) (whole : site.area ≤ map.size)
    (room : site.area ≤ target.size) :
    Known site map (target.setIfInBounds 0 (map.getD 0 0)) site.positions := by
  intro row column row_lt column_lt notLater
  have corner : row = 0 ∧ column = 0 := by
    have := mt (mem_positions wide high counted).mpr notLater
    omega
  obtain ⟨rfl, rfl⟩ := corner
  have entry_lt := entry_lt_area row_lt column_lt
  rw [Nat.zero_mul, Nat.zero_add] at entry_lt ⊢
  rw [Array.getElem?_setIfInBounds, if_pos rfl, if_pos (by omega), Array.getD_eq_getD_getElem?,
    Array.getElem?_eq_getElem (by omega), Option.getD_some]

theorem positions_inside (wide : 0 < site.width) (high : 0 < site.height) :
    ∀ p ∈ site.positions, p.1 < site.height ∧ p.2 < site.width := by
  rintro ⟨row, column⟩ member
  obtain ⟨⟨row_lt, column_lt, -⟩, -⟩ := (mem_wavefront wide high).mp member
  exact ⟨row_lt, column_lt⟩

/-- The first entries of the copy are those of the map. -/
theorem getElem?_copyColors (wide : 0 < site.width) (high : 0 < site.height)
    (counted : site.area < addressSpace) (whole : site.area ≤ map.size) (room : site.area ≤ target.size) {i : Nat}
    (below : i < site.area) : (copyColors site map target)[i]? = map[i]? := by
  have room' : site.area ≤ (target.setIfInBounds 0 (map.getD 0 0)).size := by simpa using room
  have all := (known_start wide high counted whole room).foldl (positions_inside wide high) whole room'
  obtain ⟨row, column, row_lt, column_lt, rfl⟩ := exists_entry below
  exact all row column row_lt column_lt List.not_mem_nil

/-- A map is only accepted if it is all there, and can be counted. -/
theorem extent_of_accepted (accepted : (writeMap site map).result = .ok ()) :
    0 < site.width ∧ 0 < site.height ∧ site.area < addressSpace ∧ site.area ≤ map.size := by
  obtain ⟨_, -, rest, -⟩ := Plan.accepted_check accepted
  obtain ⟨⟨⟩, extent, -, -⟩ := Plan.accepted_check rest
  exact checkExtent_eq_ok.mp extent

/-- A map is read back into any array with room for it. -/
theorem restores_writeMap (room : site.area ≤ target.size) :
    Restores (writeMap site map) (readMap site target) (copyColors site map target) := by
  unfold writeMap readMap readColors
  apply Restores.check
  rintro ⟨⟩ sized
  apply Restores.check
  rintro ⟨⟩ extent
  apply Restores.check
  rintro ⟨⟩ colored
  obtain ⟨wide, high, counted, whole⟩ := checkExtent_eq_ok.mp extent
  have fits : site.checkExtent target.size = .ok () :=
    checkExtent_eq_ok.mpr ⟨wide, high, counted, room⟩
  -- the check on the written map bounds the colours that the reader relies on
  have color := getD_lt_of_checkColors colored whole
  have corner : 0 < site.area := Nat.mul_pos wide high
  rw [sized, fits, Parse.liftM_ok_bind, Parse.liftM_ok_bind]
  apply (restores_uniform (color 0 corner)).bind
  intro _ _
  exact restores_writeRanks (checkSize_eq_ok.mp sized).2 color whole (by simpa using room)
    (positions_inside wide high) (wavefront_sorted _ _) (known_start wide high counted whole room)

end Whole

end TileCoder.Palette
