import TileCoder.Proofs.Recoding.Modes
import TileCoder.Proofs.Recoding.Numbers

/-!
# Recoding colour maps

Each entry of a map is read once and from then on stays as it is. A colour is ranked by the entries
around it that were read before; in the finished map these are the same, so that the colour has the
rank that was read for it (`recodes_ranks`).
-/

namespace TileCoder.Palette

open Parse (takes_pure)
open Plan (codes_pure)

/-! ## Ranks -/

/-- Every rank stands for a colour of the palette, and the colour has that rank. -/
theorem rankOf_getD (map : Array Nat) (stride row column : Nat) {colors rank : Nat}
    (few : colors ≤ maxColors) (inside : rank < colors) :
    (colorContext map stride row column colors).2.getD rank 0 < colors ∧
      rankOf ((colorContext map stride row column colors).2.take colors)
        ((colorContext map stride row column colors).2.getD rank 0) = .ok rank := by
  have perm := colors_perm map stride row column few
  generalize (colorContext map stride row column colors).2 = order at perm
  have length : (order.take colors).length = colors := by
    rw [perm.length_eq, List.length_range]
  have ranked : rank < (order.take colors).length := length.symm ▸ inside
  have color_eq : order.getD rank 0 = (order.take colors)[rank] := by
    rw [List.getElem_take, List.getD_eq_getElem]
  have distinct : (order.take colors).Nodup := perm.nodup_iff.mpr List.nodup_range
  have member := List.getElem_mem ranked
  rw [color_eq, rankOf, if_pos member, distinct.idxOf_getElem rank ranked]
  exact ⟨List.mem_range.mp (perm.mem_iff.mp member), rfl⟩

/-! ## Entries -/

/-- No position is on two diagonals, and none twice on one. -/
theorem wavefront_nodup (width height : Nat) : (wavefront width height).Nodup := by
  rw [wavefront, List.nodup_flatMap]
  constructor
  · intro before _
    apply List.nodup_range.map_on
    intro p p_lt q q_lt same
    have columns := (Prod.mk.inj same).2
    simp only [List.mem_range] at p_lt q_lt
    omega
  · apply List.pairwise_lt_range.imp
    intro first second order position on_first on_second
    obtain ⟨p, p_lt, rfl⟩ := List.mem_map.mp on_first
    obtain ⟨q, q_lt, same⟩ := List.mem_map.mp on_second
    obtain ⟨rows, columns⟩ := Prod.mk.inj same
    simp only [List.mem_range] at p_lt q_lt
    omega

section Ranks

variable {site : MapSite} {current final : Array Nat} {positions : List (Nat × Nat)}

/-- A map that an entry was changed of is still known elsewhere. -/
theorem Known.of_set {row column color : Nat} {rest : List (Nat × Nat)}
    (known : Known site
      (current.setIfInBounds (row * site.width + column) color) final rest)
    (column_lt : column < site.width) : Known site current final ((row, column) :: rest) := by
  intro r c r_lt c_lt absent
  obtain ⟨different, later⟩ := not_or.mp (List.mem_cons.not.mp absent)
  have entries : row * site.width + column ≠ r * site.width + c := fun same =>
    different (entry_injective (p := (r, c)) (q := (row, column)) c_lt column_lt same.symm)
  rw [known r c r_lt c_lt later, Array.getElem?_setIfInBounds, if_neg entries]

/-- The ranks that colours are read by are those that they have in the map they make up. -/
theorem recodes_ranks (few : site.colors ≤ maxColors) {steps : List Step}
    (room : site.area ≤ current.size)
    (inside : ∀ p ∈ positions, p.1 < site.height ∧ p.2 < site.width)
    (sorted : positions.Pairwise fun p q => diagonal p ≤ diagonal q) (distinct : positions.Nodup)
    (takes : (readRanks site positions current).Takes steps final) :
    final.size = current.size ∧ Known site current final positions ∧
      (∀ p ∈ positions, final.getD (p.1 * site.width + p.2) 0 < site.colors) ∧
      (writeRanks site final positions).Codes () steps := by
  induction positions generalizing current steps with
  | nil =>
      obtain ⟨rfl, rfl⟩ := takes_pure.mp takes
      exact ⟨rfl, fun _ _ _ _ _ => rfl, nofun, codes_pure ()⟩
  | cons position rest ih =>
      obtain ⟨row, column⟩ := position
      obtain ⟨here_inside, rest_inside⟩ := List.forall_mem_cons.mp inside
      obtain ⟨row_lt, column_lt⟩ : row < site.height ∧ column < site.width := here_inside
      obtain ⟨later, rest_sorted⟩ := List.pairwise_cons.mp sorted
      obtain ⟨once, rest_distinct⟩ := List.nodup_cons.mp distinct
      rw [readRanks] at takes
      obtain ⟨rank, front, back, rfl, takes_here, takes_later⟩ := Parse.Takes.of_bind takes
      obtain ⟨painted, takes_rest, color_lt, color_rank⟩ : ∃ painted,
          (readRanks site rest
            (current.setIfInBounds (row * site.width + column) painted)).Takes back final ∧
          painted < site.colors ∧
          rankOf ((colorContext current site.width row column site.colors).2.take site.colors)
            painted = .ok rank :=
        ⟨_, takes_later, rankOf_getD current site.width row column few (takes_rank takes_here).2.1⟩
      obtain ⟨size_eq, rest_known, rest_colored, rest_codes⟩ :=
        ih (by rwa [Array.size_setIfInBounds]) rest_inside rest_sorted rest_distinct takes_rest
      rw [Array.size_setIfInBounds] at size_eq
      have known := rest_known.of_set column_lt
      have entry_lt := entry_lt_area row_lt column_lt
      have here : final.getD (row * site.width + column) 0 = painted := by
        rw [Array.getD_eq_getD_getElem?, rest_known row column row_lt column_lt once,
          Array.getElem?_setIfInBounds, if_pos rfl, if_pos (by omega), Option.getD_some]
      refine ⟨size_eq, known, List.forall_mem_cons.mpr ⟨?_, rest_colored⟩, ?_⟩
      · rw [here]
        exact color_lt
      · -- the finished map ranks the colour as it was ranked when it was read
        rw [writeRanks, known.colorContext_eq later row_lt column_lt, here]
        dsimp only
        exact .check color_rank ((recodes_rank _ _ _ takes_here).bind rest_codes)

end Ranks

/-! ## Whole maps -/

/-- A map passes its check if its entries are colours of its palette. -/
theorem checkColors_of_getD_lt {map : Array Nat} {colors area : Nat}
    (colored : ∀ i < area, map.getD i 0 < colors) (whole : area ≤ map.size) :
    checkColors colors (map.toList.take area) = .ok () := by
  refine checkColors_eq_ok.mpr fun color member => ?_
  obtain ⟨i, inside, rfl⟩ := List.mem_take_iff_getElem.mp member
  have below : i < area := Nat.lt_of_lt_of_le inside (Nat.min_le_left _ _)
  have entry := colored i below
  rwa [Array.getD_eq_getD_getElem?, Array.getElem?_eq_getElem (by omega), Option.getD_some] at entry

theorem recodes_map (site : MapSite) (room : Nat) :
    Recodes (readNewMap site room) (writeMap site) := by
  intro steps final takes
  obtain ⟨⟨⟩, sized, takes_extent⟩ := Parse.Takes.of_check takes
  obtain ⟨⟨⟩, extent, takes_colors⟩ := takes_extent.of_check
  obtain ⟨first, front, back, rfl, takes_first, takes_ranks⟩ := Parse.Takes.of_bind takes_colors
  obtain ⟨wide, high, counted, whole⟩ := checkExtent_eq_ok.mp extent
  obtain ⟨low, few⟩ := checkSize_eq_ok.mp sized
  obtain ⟨first_lt, rfl⟩ := Parse.takes_uniform (by unfold minColors at low; omega) takes_first
  obtain ⟨size_eq, known, colored, codes⟩ := recodes_ranks few (by simpa using whole)
    (positions_inside wide high) (wavefront_sorted _ _) (wavefront_nodup _ _) takes_ranks
  rw [Array.size_setIfInBounds, Array.size_replicate] at size_eq
  have corner : 0 < site.area := Nat.mul_pos wide high
  have first_eq : final.getD 0 0 = first := by
    have outside : (0, 0) ∉ site.positions := fun member =>
      Nat.lt_irrefl 0 ((mem_positions wide high counted).mp member).2.2
    have entry := known 0 0 high wide outside
    rw [Nat.zero_mul, Nat.zero_add, Array.getElem?_setIfInBounds, if_pos rfl,
      if_pos (by rw [Array.size_replicate]; omega)] at entry
    rw [Array.getD_eq_getD_getElem?, entry, Option.getD_some]
  have all_colored : ∀ i < site.area, final.getD i 0 < site.colors := by
    intro i below
    obtain ⟨row, column, row_lt, column_lt, rfl⟩ := exists_entry below
    by_cases start : row = 0 ∧ column = 0
    · obtain ⟨rfl, rfl⟩ := start
      rw [Nat.zero_mul, first_eq]
      exact first_lt
    · exact colored (row, column) ((mem_positions wide high counted).mpr ⟨row_lt, column_lt, by omega⟩)
  refine .check sized (.check (checkExtent_eq_ok.mpr ⟨wide, high, counted, size_eq ▸ whole⟩)
    (.check (checkColors_of_getD_lt all_colored (size_eq ▸ whole)) ?_))
  rw [first_eq]
  exact Plan.Codes.bind rfl codes

end TileCoder.Palette
