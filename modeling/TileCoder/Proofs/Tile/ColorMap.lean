import TileCoder.Proofs.Recoding.ColorMap
import TileCoder.Proofs.Tile.Answers
import TileCoder.Proofs.Tile.Numbers
import TileCoder.Proofs.Tile.Pieces
import TileCoder.Proofs.Tile.Refusal

/-!
# Colour maps, entry by entry

Every position of a map but the first is coded once, if the sum of the extents can be counted
(`complete_iff`), and its neighbours are coded before it (`listed_before`). So a reader only looks at
entries that it has read itself, whatever the array held before, and these are colours of the palette,
whatever the payload says.

`readMap?` and `writeMap?` look up every entry, score, rank and row of a table that the reader and the
writer look at, and give up if there is none. They never do (`mirrors_readMap`, `writeMap?_eq`).
-/

namespace TileCoder.Palette

open TileCoder.Range

/-! ## The order of positions -/

/-- The positions beside, above and between, as far as there are any. -/
def neighbours (row column : Nat) : List (Nat × Nat) :=
  (if 0 < column then [(row, column - 1)] else []) ++
    (if 0 < row ∧ 0 < column then [(row - 1, column - 1)] else []) ++
      if 0 < row then [(row - 1, column)] else []

/-- A neighbour is on an earlier diagonal, and no further away from the corner. -/
theorem of_mem_neighbours {row column : Nat} {position : Nat × Nat}
    (member : position ∈ neighbours row column) :
    position.1 ≤ row ∧ position.2 ≤ column ∧ position.1 + position.2 < row + column := by
  unfold neighbours at member
  simp only [List.mem_append, List.mem_ite_nil_right, List.mem_singleton] at member
  rcases member with (⟨inside, rfl⟩ | ⟨inside, rfl⟩) | ⟨inside, rfl⟩ <;> dsimp only <;> omega

/-- Earlier diagonals are not to come. -/
theorem not_mem_of_diagonal_lt {row column r c : Nat} {rest : List (Nat × Nat)}
    (sorted : ∀ q ∈ rest, diagonal (row, column) ≤ diagonal q) (earlier : r + c < row + column) :
    (r, c) ∉ (row, column) :: rest := by
  intro later
  rcases List.mem_cons.mp later with same | behind
  · obtain ⟨rfl, rfl⟩ := Prod.mk.inj same
    exact Nat.lt_irrefl _ earlier
  · exact Nat.not_le.mpr earlier (sorted _ behind)

theorem count_wavefront {width height : Nat} (wide : 0 < width) (high : 0 < height)
    (row column : Nat) :
    (wavefront width height).count (row, column) =
      if (row < height ∧ column < width ∧ 0 < row + column) ∧ row + column < diagonals width height
        then 1 else 0 := by
  split
  next inside =>
    have listed := (mem_wavefront wide high).mpr inside
    exact List.count_eq_one_of_mem (wavefront_nodup width height) listed
  next outside => exact List.count_eq_zero.mpr (mt (mem_wavefront wide high).mp outside)

/-- Every position but the first comes once. -/
def Complete (width height : Nat) : Prop :=
  ∀ row column, (wavefront width height).count (row, column) =
    if row < height ∧ column < width ∧ (row, column) ≠ (0, 0) then 1 else 0

/-- So it is as long as the sum of the extents is no more than one too large for a word. Otherwise
the corner opposite to the first position is missed. -/
theorem complete_iff {width height : Nat} (wide : 0 < width) (width_lt : width < addressSpace)
    (high : 0 < height) (height_lt : height < addressSpace) :
    Complete width height ↔ width + height ≤ addressSpace := by
  constructor
  · intro complete
    by_contra beyond
    have corner := complete (height - 1) (width - 1)
    rw [if_pos ⟨by omega, by omega, by rw [ne_eq, Prod.mk.injEq]; omega⟩] at corner
    have listed := List.count_pos_iff.mp (Nat.lt_of_lt_of_eq Nat.one_pos corner.symm)
    have counted := ((mem_wavefront wide high).mp listed).2
    unfold diagonals addressSpace at *
    omega
  · intro fits row column
    rw [count_wavefront wide high, diagonals_of_le wide fits]
    congr 1
    simp only [ne_eq, Prod.mk.injEq, eq_iff_iff]
    omega

/-- The neighbours of a position come before it. -/
theorem listed_before {width height row column : Nat} (wide : 0 < width) (high : 0 < height)
    {front back : List (Nat × Nat)}
    (split : wavefront width height = front ++ (row, column) :: back) :
    ∀ position ∈ neighbours row column, position = (0, 0) ∨ position ∈ front := by
  rintro ⟨r, c⟩ member
  obtain ⟨r_le, c_le, earlier⟩ := of_mem_neighbours member
  have here : (row, column) ∈ wavefront width height := by
    rw [split]
    exact List.mem_append_right _ List.mem_cons_self
  obtain ⟨⟨row_lt, column_lt, -⟩, counted⟩ := (mem_wavefront wide high).mp here
  by_cases corner : r + c = 0
  · left
    rw [Prod.mk.injEq]
    omega
  right
  have listed : (r, c) ∈ front ++ (row, column) :: back := by
    rw [← split]
    exact (mem_wavefront wide high).mpr ⟨⟨by omega, by omega, by omega⟩, by omega⟩
  have sorted := wavefront_sorted width height
  rw [split, List.pairwise_append, List.pairwise_cons] at sorted
  obtain ⟨-, ⟨behind, -⟩, -⟩ := sorted
  exact (List.mem_append.mp listed).resolve_right (not_mem_of_diagonal_lt behind earlier)

/-! ## Checked look-ups -/

/-- The colour of an entry, if the map has the entry and the colour has a score. -/
def color? (map : Array Nat) (entry : Nat) : Option Nat := map[entry]?.filter (· < maxColors)

/-- `colorContext`, if all neighbours have colours, the context has a row and each colour a rank. -/
def colorContext? (site : MapSite) (map : Array Nat) (row column : Nat) :
    Option (Nat × List Nat) :=
  let (context, order) := colorContext map site.width row column site.colors
  if (∀ position ∈ neighbours row column,
        (color? map (position.1 * site.width + position.2)).isSome) ∧
      context < (rankTable site.luma site.colors).rows ∧ site.colors ≤ order.length then
    some (context, order)
  else none

/-- `writeRanks`, if there is all that it looks at. -/
def writeRanks? (site : MapSite) (map : Array Nat) : List (Nat × Nat) → Option (Plan Unit)
  | [] => some (pure ())
  | (row, column) :: rest => do
      let (context, order) ← colorContext? site map row column
      let color ← map[row * site.width + column]?
      let later ← writeRanks? site map rest
      return do
        let rank ← rankOf (order.take site.colors) color
        writeRank site.luma site.colors context rank
        later

/-- `writeMap`, if there is all that it looks at. -/
def writeMap? (site : MapSite) (map : Array Nat) : Option (Plan Unit) :=
  let checks : Except CodingError Unit := do
    checkSize site.colors
    site.checkExtent map.size
    checkColors site.colors (map.toList.take site.area)
  match checks with
  | .error error => some (throw error)
  | .ok () => do
      let first ← map[0]?
      let later ← writeRanks? site map site.positions
      return do
        Plan.bits (Code.uniform site.colors first)
        later

/-- `readRanks`, which gives up where there is not all that it looks at. -/
def readRanks? (site : MapSite) : (positions : List (Nat × Nat)) → (map : Array Nat) →
    Parse (Option (Array Nat))
  | [], map => return some map
  | (row, column) :: rest, map =>
      match colorContext? site map row column with
      | none => return none
      | some (context, order) => do
          let rank ← readRank site.luma site.colors context
          if rank < order.length ∧ row * site.width + column < map.size then
            readRanks? site rest
              (map.setIfInBounds (row * site.width + column) (order.getD rank 0))
          else return none

/-- `readMap`, which gives up where there is not all that it looks at. -/
def readMap? (site : MapSite) (map : Array Nat) : Parse (Option (Array Nat)) := do
  checkSize site.colors
  site.checkExtent map.size
  let first ← Code.readUniform site.colors
  if 0 < map.size then readRanks? site site.positions (map.setIfInBounds 0 first) else return none

/-! ## What is looked at -/

/-- The entries of all positions but these are colours of the palette. -/
def Colored (site : MapSite) (map : Array Nat) (rest : List (Nat × Nat)) : Prop :=
  ∀ row column, row < site.height → column < site.width → (row, column) ∉ rest →
    ∃ color < site.colors, map[row * site.width + column]? = some color

section Colored

variable {site : MapSite} {map : Array Nat} {row column : Nat} {rest : List (Nat × Nat)}

theorem rows_rankTable (luma : Bool) (colors : Nat) : (rankTable luma colors).rows = 5 := by
  unfold rankTable
  split <;> rfl

theorem le_length_order (map : Array Nat) (stride row column : Nat) {colors : Nat}
    (few : colors ≤ maxColors) : colors ≤ (colorContext map stride row column colors).2.length := by
  have length := (colors_perm map stride row column few).length_eq
  rw [List.length_take, List.length_range] at length
  omega

/-- The neighbours of the next position are there. -/
theorem Colored.colorContext?_eq (colored : Colored site map ((row, column) :: rest))
    (few : site.colors ≤ maxColors)
    (sorted : ∀ q ∈ rest, diagonal (row, column) ≤ diagonal q) (row_lt : row < site.height)
    (column_lt : column < site.width) :
    colorContext? site map row column =
      some (colorContext map site.width row column site.colors) := by
  unfold colorContext?
  dsimp only
  refine if_pos ⟨?_, ?_, le_length_order _ _ _ _ few⟩
  · rintro ⟨r, c⟩ member
    obtain ⟨r_le, c_le, earlier⟩ := of_mem_neighbours member
    obtain ⟨color, color_lt, entry⟩ :=
      colored r c (by omega) (by omega) (not_mem_of_diagonal_lt sorted earlier)
    rw [color?, entry, Option.filter_some_pos (by simpa using Nat.lt_of_lt_of_le color_lt few)]
    rfl
  · rw [rows_rankTable]
    exact rankContext_lt _

/-- A colour of the palette takes the place of the next position. -/
theorem Colored.set (colored : Colored site map ((row, column) :: rest))
    (row_lt : row < site.height) (column_lt : column < site.width) (room : site.area ≤ map.size)
    {color : Nat} (color_lt : color < site.colors) :
    Colored site (map.setIfInBounds (row * site.width + column) color) rest := by
  intro r c r_lt c_lt notLater
  rw [Array.getElem?_setIfInBounds]
  by_cases here : (r, c) = (row, column)
  · obtain ⟨rfl, rfl⟩ := Prod.mk.inj here
    have entry_lt := entry_lt_area row_lt column_lt
    exact ⟨color, color_lt, by rw [if_pos rfl, if_pos (by omega)]⟩
  · have entries : row * site.width + column ≠ r * site.width + c := fun same =>
      here (entry_injective (p := (r, c)) (q := (row, column)) c_lt column_lt same.symm)
    rw [if_neg entries]
    exact colored r c r_lt c_lt (List.mem_cons.not.mpr (not_or.mpr ⟨here, notLater⟩))

/-- Before the first position on a diagonal, only the corner has to be coloured. -/
theorem colored_start (wide : 0 < site.width) (high : 0 < site.height)
    (counted : site.area < addressSpace) (room : site.area ≤ map.size) {color : Nat} (color_lt : color < site.colors) :
    Colored site (map.setIfInBounds 0 color) site.positions := by
  intro row column row_lt column_lt notLater
  have corner : row = 0 ∧ column = 0 := by
    have := mt (mem_positions wide high counted).mpr notLater
    omega
  obtain ⟨rfl, rfl⟩ := corner
  have entry_lt := entry_lt_area row_lt column_lt
  rw [Nat.zero_mul, Nat.zero_add] at entry_lt ⊢
  exact ⟨color, color_lt, by rw [Array.getElem?_setIfInBounds, if_pos rfl, if_pos (by omega)]⟩

/-- A whole map of colours is coloured, whatever is left of it. -/
theorem colored_whole (colored : ∀ i < site.area, map.getD i 0 < site.colors)
    (whole : site.area ≤ map.size) : Colored site map rest := by
  intro row column row_lt column_lt _
  have entry_lt := entry_lt_area row_lt column_lt
  refine ⟨_, colored _ entry_lt, ?_⟩
  rw [Array.getD_eq_getD_getElem?, Array.getElem?_eq_getElem (by omega), Option.getD_some]

end Colored

/-! ## Writing -/

section Writing

variable {site : MapSite} {map : Array Nat}

theorem writeRanks?_eq {positions : List (Nat × Nat)} (few : site.colors ≤ maxColors)
    (colored : ∀ i < site.area, map.getD i 0 < site.colors) (whole : site.area ≤ map.size)
    (inside : ∀ p ∈ positions, p.1 < site.height ∧ p.2 < site.width)
    (sorted : positions.Pairwise fun p q => diagonal p ≤ diagonal q) :
    writeRanks? site map positions = some (writeRanks site map positions) := by
  induction positions with
  | nil => rfl
  | cons position rest ih =>
      obtain ⟨row, column⟩ := position
      obtain ⟨here_inside, rest_inside⟩ := List.forall_mem_cons.mp inside
      obtain ⟨row_lt, column_lt⟩ : row < site.height ∧ column < site.width := here_inside
      obtain ⟨later, rest_sorted⟩ := List.pairwise_cons.mp sorted
      have entry_lt := entry_lt_area row_lt column_lt
      have entry : map[row * site.width + column]? =
          some (map.getD (row * site.width + column) 0) := by
        rw [Array.getD_eq_getD_getElem?, Array.getElem?_eq_getElem (by omega), Option.getD_some]
      have known : Colored site map ((row, column) :: rest) := colored_whole colored whole
      rw [writeRanks?, known.colorContext?_eq few later row_lt column_lt, entry,
        ih rest_inside rest_sorted]
      rfl

/-- A writer finds all that it looks at. -/
theorem writeMap?_eq (site : MapSite) (map : Array Nat) :
    writeMap? site map = some (writeMap site map) := by
  unfold writeMap? writeMap
  cases sized : checkSize site.colors with
  | error error => rfl
  | ok =>
  cases extent : site.checkExtent map.size with
  | error error => rfl
  | ok =>
  cases checked : checkColors site.colors (map.toList.take site.area) with
  | error error => rfl
  | ok =>
  obtain ⟨wide, high, counted, whole⟩ := checkExtent_eq_ok.mp extent
  have colored := getD_lt_of_checkColors checked whole
  have corner : 0 < site.area := Nat.mul_pos wide high
  have first : map[0]? = some (map.getD 0 0) := by
    rw [Array.getD_eq_getD_getElem?, Array.getElem?_eq_getElem (by omega), Option.getD_some]
  have later := writeRanks?_eq (checkSize_eq_ok.mp sized).2 colored whole
    (positions_inside wide high) (wavefront_sorted _ _)
  rw [first, show writeRanks? site map site.positions = _ from later]
  rfl

end Writing

/-! ## Reading -/

section Reading

variable {site : MapSite} {map : Array Nat}

theorem sure_readRank {luma : Bool} {colors : Nat} (sized : checkSize colors = .ok ())
    (context : Nat) : (readRank luma colors context).Sure := by
  rw [readRank, sized]
  exact Parse.sure_symbol _

theorem mirrors_readRanks {positions : List (Nat × Nat)} (sized : checkSize site.colors = .ok ())
    (room : site.area ≤ map.size)
    (inside : ∀ p ∈ positions, p.1 < site.height ∧ p.2 < site.width)
    (sorted : positions.Pairwise fun p q => diagonal p ≤ diagonal q)
    (colored : Colored site map positions) :
    Parse.Mirrors some (readRanks site positions map) (readRanks? site positions map) := by
  have few := (checkSize_eq_ok.mp sized).2
  induction positions generalizing map with
  | nil => exact .done map
  | cons position rest ih =>
      obtain ⟨row, column⟩ := position
      obtain ⟨here_inside, rest_inside⟩ := List.forall_mem_cons.mp inside
      obtain ⟨row_lt, column_lt⟩ : row < site.height ∧ column < site.width := here_inside
      obtain ⟨later, rest_sorted⟩ := List.pairwise_cons.mp sorted
      rw [readRanks, readRanks?, colored.colorContext?_eq few later row_lt column_lt]
      dsimp only
      refine (sure_readRank sized _).mirrors_bind ?_
      intro steps rank takes
      have rank_lt : rank < site.colors := (takes_rank takes).2.1
      have color_lt := (rankOf_getD map site.width row column few rank_lt).1
      have entry_lt := entry_lt_area row_lt column_lt
      have ranked := le_length_order map site.width row column few
      rw [if_pos ⟨by omega, by omega⟩]
      refine ih ?_ rest_inside rest_sorted (colored.set row_lt column_lt room color_lt)
      rwa [Array.size_setIfInBounds]

/-- A reader finds all that it looks at, whatever it reads. -/
theorem mirrors_readMap (site : MapSite) (map : Array Nat) :
    Parse.Mirrors some (readMap site map) (readMap? site map) := by
  unfold readMap readMap?
  cases sized : checkSize site.colors with
  | error error => exact .fail error
  | ok =>
  cases extent : site.checkExtent map.size with
  | error error => exact .fail error
  | ok =>
  obtain ⟨wide, high, counted, room⟩ := checkExtent_eq_ok.mp extent
  obtain ⟨some_colors, few⟩ := checkSize_eq_ok.mp sized
  have corner : 0 < site.area := Nat.mul_pos wide high
  unfold minColors maxColors at *
  have word : site.colors < wordSize := by
    unfold wordSize
    omega
  simp only [Parse.liftM_ok_bind, readColors]
  refine (Parse.settles_uniform word).sure.mirrors_bind ?_
  intro steps first takes
  obtain ⟨first_lt, -⟩ := Parse.takes_uniform (by omega) takes
  rw [if_pos (by omega)]
  exact mirrors_readRanks sized (by rwa [Array.size_setIfInBounds]) (positions_inside wide high)
    (wavefront_sorted _ _) (colored_start wide high counted room first_lt)

end Reading

/-! ## Entries behind the map -/

theorem getElem?_foldl_paint {site : MapSite} {map target : Array Nat}
    {positions : List (Nat × Nat)}
    (inside : ∀ p ∈ positions, p.1 < site.height ∧ p.2 < site.width) {i : Nat}
    (behind : site.area ≤ i) : (positions.foldl (paint site map) target)[i]? = target[i]? := by
  induction positions generalizing target with
  | nil => rfl
  | cons position rest ih =>
      obtain ⟨here, later⟩ := List.forall_mem_cons.mp inside
      have entry_lt := entry_lt_area here.1 here.2
      rw [List.foldl_cons, ih later, paint, Array.getElem?_setIfInBounds, if_neg (by omega)]

/-- What lies behind the map stays as it was. -/
theorem getElem?_copyColors_behind {site : MapSite} {map target : Array Nat}
    (wide : 0 < site.width) (high : 0 < site.height) {i : Nat} (behind : site.area ≤ i) :
    (copyColors site map target)[i]? = target[i]? := by
  have corner : 0 < site.area := Nat.mul_pos wide high
  rw [copyColors, getElem?_foldl_paint (positions_inside wide high) behind,
    Array.getElem?_setIfInBounds, if_neg (by omega)]

/-! ## Round trips -/

/-- A map is taken, and is read into the first entries of an array, the others of which stay as they
are. Both sides find all that they look at. -/
def RoundTrips (tables : Tables) (adapts : Bool) (site : MapSite) (map target : Array Nat) : Prop :=
  let written := (TileWriter.new tables adapts : TileWriter Payload).run (writeMap site map)
  let reader := TileReader.new written.2.coder.finish tables adapts
  written.1 = .ok () ∧ writeMap? site map = some (writeMap site map) ∧
    ∃ read, (reader.run (readMap site target)).1 = .ok read ∧
      (reader.run (readMap? site target)).1 = .ok (some read) ∧ read.size = target.size ∧
      (∀ i < site.area, read[i]? = map[i]?) ∧ ∀ i, site.area ≤ i → read[i]? = target[i]?

section Coded

variable {site : MapSite} {map target : Array Nat}

theorem accepted_writeMap (sized : checkSize site.colors = .ok ())
    (extent : site.checkExtent map.size = .ok ())
    (colored : ∀ i < site.area, map.getD i 0 < site.colors) :
    (writeMap site map).result = .ok () := by
  obtain ⟨wide, high, counted, whole⟩ := checkExtent_eq_ok.mp extent
  have ranks : (writeRanks site map site.positions).Certain := by
    refine certain_writeRanks sized fun position member => ?_
    obtain ⟨row_lt, column_lt⟩ := positions_inside wide high position member
    exact colored _ (entry_lt_area row_lt column_lt)
  have coded : Plan.Certain (do
      Plan.bits (Code.uniform site.colors (map.getD 0 0))
      writeRanks site map site.positions) :=
    (Plan.certain_all _).bind fun _ => ranks
  unfold writeMap
  rw [sized, extent, checkColors_of_getD_lt colored whole]
  exact coded.choose_spec

theorem roundTrips {tables : Tables} (codable : tables.Codable) (adapts : Bool)
    (sized : checkSize site.colors = .ok ()) (extent : site.checkExtent map.size = .ok ())
    (colored : ∀ i < site.area, map.getD i 0 < site.colors) (room : site.area ≤ target.size) :
    RoundTrips tables adapts site map target := by
  unfold RoundTrips
  intro written reader
  obtain ⟨wide, high, counted, whole⟩ := checkExtent_eq_ok.mp extent
  have accepted := accepted_writeMap sized extent colored
  have follows := restores_writeMap room () accepted
  have read : (reader.run (readMap site target)).1 = .ok (copyColors site map target) :=
    (TileReader.run_written codable adapts follows).1
  have checked : (reader.run (readMap? site target)).1 =
      (reader.run (readMap site target)).1.map some :=
    congrArg Prod.fst ((TileReader.sound_new codable _ adapts).run_mirrors
      (mirrors_readMap site target))
  refine ⟨accepted, writeMap?_eq site map, copyColors site map target, read, ?_,
    size_copyColors site map target, fun i => getElem?_copyColors wide high counted whole room,
    fun i => getElem?_copyColors_behind wide high⟩
  rw [checked, read]
  rfl

end Coded

/-- **Colour maps are coded causally and completely.** Every position but the first is coded once, as
long as the sum of the extents is no more than one too large for a word, and its neighbours come
before it in any case. So a map of colours of a palette that is all there, in an array whose entries a
word counts, is read back into the first entries of any array, whatever the array held, and leaves the
others alone; and no reader ever looks for an entry, a score, a rank or a row of a table that is not
there, whatever the payload. -/
theorem map_causal_and_complete (tables : Tables) (codable : tables.Codable) (adapts : Bool) :
    (∀ width height, 0 < width → width < addressSpace → 0 < height → height < addressSpace →
      (Complete width height ↔ width + height ≤ addressSpace) ∧
      ∀ front row column back, wavefront width height = front ++ (row, column) :: back →
        ∀ position ∈ neighbours row column, position = (0, 0) ∨ position ∈ front) ∧
    (∀ (site : MapSite) (map target : Array Nat), minColors ≤ site.colors → site.colors ≤ maxColors →
      0 < site.width → 0 < site.height → map.size < addressSpace → site.area ≤ map.size →
        (∀ i < site.area, map.getD i 0 < site.colors) → site.area ≤ target.size →
          RoundTrips tables adapts site map target) ∧
    ∀ (reader : TileReader) site target, reader.Sound →
      reader.run (readMap? site target) =
        ((reader.run (readMap site target)).1.map some, (reader.run (readMap site target)).2) := by
  refine ⟨?_, ?_, ?_⟩
  · intro width height wide width_lt high height_lt
    exact ⟨complete_iff wide width_lt high height_lt,
      fun front row column back => listed_before wide high⟩
  · intro site map target some_colors few wide high held whole
    exact roundTrips codable adapts (checkSize_eq_ok.mpr ⟨some_colors, few⟩)
      (checkExtent_eq_ok.mpr ⟨wide, high, by omega, whole⟩)
  · intro reader site target sound
    exact sound.run_mirrors (mirrors_readMap site target)

/-- A map of four columns and two rows, with an entry too many, read into an array of other
numbers. -/
theorem map_causal_and_complete_stale :
    let site : MapSite := ⟨true, 5, 4, 2⟩
    let map := #[4, 0, 0, 3, 2, 2, 1, 4, 200]
    let target := #[250, 9, 255, 7, 8, 6, 77, 3, 100, 101]
    Tables.initial.Codable ∧ (∀ i < site.area, map.getD i 0 < site.colors) ∧
      RoundTrips .initial true site map target := by
  intro site map target
  have colored : ∀ i < site.area, map.getD i 0 < site.colors := by decide
  exact ⟨Tables.codable_initial, colored,
    (map_causal_and_complete .initial Tables.codable_initial true).2.1 site map target (by decide)
      (by decide) (by decide) (by decide) (by decide) (by decide) colored (by decide)⟩

/-- Of extents whose sum is larger, none of the positions may be left. -/
theorem wavefront_wraps :
    wavefront 9223372036854775808 9223372036854775810 = [] ∧
      ¬Complete 9223372036854775808 9223372036854775810 := by
  refine ⟨by decide, fun complete => ?_⟩
  have first := complete 0 1
  revert first
  decide

end TileCoder.Palette
