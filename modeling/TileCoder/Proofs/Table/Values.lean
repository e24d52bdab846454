import TileCoder.Proofs.Table.Codable

/-!
# The values of all tables

The values of all tables stand one behind another: table after table, row after row, and in a row
the counter last. Every value stands at one place (`Slot.exists_place`, `Slot.place_injective`),
where it can be read (`Tables.Shaped.getElem?_values`). So what a reset does to the rows can be told
from the values: counters become 0, and nothing else changes (`Tables.resetCounts_values`).
-/

namespace TileCoder

/-! ## Places -/

namespace Slot

/-- Where the `i`-th value of a row stands among those of all tables. -/
def place (slot : Slot) (i : Nat) : Nat :=
  ((Table.all.take slot.table.ctorIdx).map Table.size).sum + (slot.row * slot.table.rowSize + i)

/-- The values of a row are among those of its table. -/
theorem row_mul_add_lt {slot : Slot} {i : Nat} (inside : i < slot.table.rowSize) :
    slot.row * slot.table.rowSize + i < slot.table.size := by
  calc slot.row * slot.table.rowSize + i
    _ < (slot.row + 1) * slot.table.rowSize := by
      rw [Nat.succ_mul]
      exact Nat.add_lt_add_left inside _
    _ ≤ slot.table.size := Nat.mul_le_mul_right _ slot.row.isLt

/-- No value stands anywhere but in a row. -/
theorem exists_place {p : Nat} (inside : p < (Table.all.map Table.size).sum) :
    ∃ (slot : Slot) (i : Nat), i < slot.table.rowSize ∧ slot.place i = p := by
  obtain ⟨table, r, below, here⟩ := Table.exists_sum_map_take_add Table.size inside
  have row_lt : r / table.rowSize < table.rows :=
    Nat.div_lt_of_lt_mul (by rwa [Nat.mul_comm])
  refine ⟨⟨table, ⟨r / table.rowSize, row_lt⟩⟩, r % table.rowSize,
    Nat.mod_lt _ (Nat.succ_pos _), ?_⟩
  rw [place, Nat.div_add_mod', here]

/-- No two values stand at the same place. -/
theorem place_injective {a b : Slot} {i j : Nat} (i_lt : i < a.table.rowSize)
    (j_lt : j < b.table.rowSize) (same : a.place i = b.place j) : a = b ∧ i = j := by
  obtain ⟨table, row⟩ := a
  obtain ⟨other, number⟩ := b
  obtain ⟨rfl, values⟩ := Table.sum_map_take_add_inj Table.size (row_mul_add_lt i_lt)
    (row_mul_add_lt j_lt) same
  dsimp only at i_lt j_lt values
  -- the row is the quotient by the size of a row
  have quotient (r : Nat) {k : Nat} (k_lt : k < table.rowSize) :
      (r * table.rowSize + k) / table.rowSize = r := by
    rw [Nat.mul_comm, Nat.mul_add_div (Nat.zero_lt_of_lt k_lt), Nat.div_eq_of_lt k_lt,
      Nat.add_zero]
  obtain rfl : row = number := Fin.ext <| by
    rw [← quotient row i_lt, values, quotient number j_lt]
  exact ⟨rfl, Nat.add_left_cancel values⟩

end Slot

/-- A counter stands at this place. -/
def IsCounter (p : Nat) : Prop := ∃ slot : Slot, slot.place slot.table.symbols = p

/-- The counter of a row is its last value, and no other. -/
theorem Slot.isCounter_place {slot : Slot} {i : Nat} (inside : i < slot.table.rowSize) :
    IsCounter (slot.place i) ↔ i = slot.table.symbols := by
  constructor
  · rintro ⟨other, here⟩
    obtain ⟨rfl, rfl⟩ := place_injective (Nat.lt_succ_self _) inside here
    rfl
  · rintro rfl
    exact ⟨slot, rfl⟩

namespace Cdf

variable {cdf : Cdf} {symbols i : Nat}

/-- A reset leaves what stands before the counter. -/
theorem getElem?_resetCount_of_lt (length : cdf.length = symbols + 1) (before : i < symbols) :
    cdf.resetCount[i]? = cdf[i]? := by
  rw [resetCount, List.getElem?_mapIdx]
  simp [show ¬ i + 1 = cdf.length by omega]

theorem getElem?_resetCount_counter (length : cdf.length = symbols + 1) :
    cdf.resetCount[symbols]? = some 0 := by
  rw [resetCount, List.getElem?_mapIdx, List.getElem?_eq_getElem (by omega)]
  simp [length]

end Cdf

/-! ## Values -/

namespace Tables

/-- Every row has a value for each symbol, and a counter. -/
def Shaped (tables : Tables) : Prop :=
  ∀ slot : Slot, (tables.get slot).length = slot.table.rowSize

theorem Codable.shaped {tables : Tables} (codable : tables.Codable) : tables.Shaped :=
  fun slot => (codable slot).length_eq

namespace Shaped

variable {tables other : Tables}

theorem resetCounts (shaped : tables.Shaped) : tables.resetCounts.Shaped := by
  intro slot
  rw [get_resetCounts, Cdf.length_resetCount, shaped]

/-- All rows of a table are of one length. -/
theorem length_row (shaped : tables.Shaped) (table : Table) (row : Nat) :
    (tables.get (table.at row)).length = table.rowSize :=
  shaped (table.at row)

theorem length_tableValues (shaped : tables.Shaped) (table : Table) :
    (tables.tableValues table).length = table.size := by
  simp [tableValues, List.length_flatMap, shaped.length_row, Table.size]

theorem length_values (shaped : tables.Shaped) :
    (tables.values Table.all).length = (Table.all.map Table.size).sum := by
  simp only [values, List.length_flatMap, shaped.length_tableValues]

theorem getElem?_tableValues (shaped : tables.Shaped) {slot : Slot} {i : Nat}
    (inside : i < slot.table.rowSize) :
    (tables.tableValues slot.table)[slot.row * slot.table.rowSize + i]? =
      (tables.get slot)[i]? := by
  have row : slot.table.at slot.row = slot :=
    ((Slot.eq_at_iff slot.row.isLt).mpr ⟨rfl, rfl⟩).symm
  have listed : (List.range slot.table.rows)[slot.row.val]? = some slot.row.val := by simp
  have stored := getElem?_flatMap (f := fun row => tables.get (slot.table.at row)) listed (i := i)
    (by rwa [shaped.length_row])
  simp only [shaped.length_row, row] at stored
  rw [← stored, tableValues]
  simp

/-- The `i`-th value of a row stands at its place. -/
theorem getElem?_values (shaped : tables.Shaped) {slot : Slot} {i : Nat}
    (inside : i < slot.table.rowSize) :
    (tables.values Table.all)[slot.place i]? = (tables.get slot)[i]? := by
  have stored := getElem?_flatMap (f := tables.tableValues) slot.table.all_getElem?
    (i := slot.row * slot.table.rowSize + i)
    (by rw [shaped.length_tableValues]; exact Slot.row_mul_add_lt inside)
  simp only [shaped.length_tableValues] at stored
  rw [← shaped.getElem?_tableValues inside, ← stored]
  rfl

/-- Tables with the same values are the same. -/
theorem ext_values (shaped : tables.Shaped) (other_shaped : other.Shaped)
    (same : tables.values Table.all = other.values Table.all) : tables = other := by
  apply ext_get
  intro slot
  apply List.ext_getElem?
  intro i
  by_cases inside : i < slot.table.rowSize
  · rw [← shaped.getElem?_values inside, ← other_shaped.getElem?_values inside, same]
  · rw [List.getElem?_eq_none (by rw [shaped]; omega),
      List.getElem?_eq_none (by rw [other_shaped]; omega)]

/-! ## What a reset does to the values -/

theorem resetCounts_counter (shaped : tables.Shaped) {p : Nat} (counter : IsCounter p) :
    (tables.resetCounts.values Table.all)[p]? = some 0 := by
  obtain ⟨slot, rfl⟩ := counter
  rw [shaped.resetCounts.getElem?_values (Nat.lt_succ_self _), get_resetCounts]
  exact Cdf.getElem?_resetCount_counter (shaped slot)

theorem resetCounts_of_not_counter (shaped : tables.Shaped) {p : Nat} (share : ¬ IsCounter p) :
    (tables.resetCounts.values Table.all)[p]? = (tables.values Table.all)[p]? := by
  by_cases inside : p < (Table.all.map Table.size).sum
  · obtain ⟨slot, i, i_lt, rfl⟩ := Slot.exists_place inside
    rw [Slot.isCounter_place i_lt] at share
    have before : i < slot.table.symbols := by
      unfold Table.rowSize at i_lt
      omega
    rw [shaped.resetCounts.getElem?_values i_lt, shaped.getElem?_values i_lt, get_resetCounts]
    exact Cdf.getElem?_resetCount_of_lt (shaped slot) before
  · rw [List.getElem?_eq_none (by rw [shaped.resetCounts.length_values]; omega),
      List.getElem?_eq_none (by rw [shaped.length_values]; omega)]

end Shaped

theorem resetCounts_resetCounts (tables : Tables) :
    tables.resetCounts.resetCounts = tables.resetCounts :=
  resetCounts_of_fresh tables.fresh_resetCounts

/-- **A reset sets all counters to 0 and leaves all other values.** So a second reset changes
nothing, and tables become the same by a reset just if they differ in nothing but counters. -/
theorem resetCounts_values {tables : Tables} (shaped : tables.Shaped) :
    (∀ p, IsCounter p → (tables.resetCounts.values Table.all)[p]? = some 0) ∧
    (∀ p, ¬ IsCounter p →
      (tables.resetCounts.values Table.all)[p]? = (tables.values Table.all)[p]?) ∧
    tables.resetCounts.resetCounts = tables.resetCounts ∧
    ∀ other : Tables, other.Shaped → (tables.resetCounts = other.resetCounts ↔
      ∀ p, ¬ IsCounter p → (tables.values Table.all)[p]? = (other.values Table.all)[p]?) := by
  refine ⟨fun _ => shaped.resetCounts_counter, fun _ => shaped.resetCounts_of_not_counter,
    tables.resetCounts_resetCounts, fun other other_shaped => ⟨?alike, ?reset⟩⟩
  case alike =>
    intro same p share
    rw [← shaped.resetCounts_of_not_counter share, same,
      other_shaped.resetCounts_of_not_counter share]
  case reset =>
    intro alike
    refine shaped.resetCounts.ext_values other_shaped.resetCounts (List.ext_getElem? fun p => ?_)
    by_cases counter : IsCounter p
    · rw [shaped.resetCounts_counter counter, other_shaped.resetCounts_counter counter]
    · rw [shaped.resetCounts_of_not_counter counter, alike p counter,
        other_shaped.resetCounts_of_not_counter counter]

/-- A row that adapted has counted; a reset takes back the count, but not the share that moved. -/
theorem resetCounts_values_adapted :
    (initial.update Table.wiener.only 0).Shaped ∧
      (initial.update Table.wiener.only 0).get Table.wiener.only = [19874, 0, 1] ∧
      ((initial.update Table.wiener.only 0).resetCounts.values
        Table.all)[Table.wiener.only.place 2]? = some 0 ∧
      (initial.update Table.wiener.only 0).resetCounts ≠ initial.resetCounts := by
  have shaped := (codable_initial.update Table.wiener.only 0).shaped
  have trained : initial.get Table.wiener.only = [21198, 0, 0] := by decide +kernel
  have adapted : (initial.update Table.wiener.only 0).get Table.wiener.only = [19874, 0, 1] := by
    rw [update, get_set_self, trained]
    decide
  obtain ⟨counters, -, -, reset_eq_iff⟩ := resetCounts_values shaped
  refine ⟨shaped, adapted, counters _ ⟨Table.wiener.only, rfl⟩, fun same => ?_⟩
  have share : ¬ IsCounter (Table.wiener.only.place 0) := by
    rw [Slot.isCounter_place (by decide)]
    decide
  have values := (reset_eq_iff initial codable_initial.shaped).mp same _ share
  rw [shaped.getElem?_values (by decide), codable_initial.shaped.getElem?_values (by decide),
    adapted, trained] at values
  simp at values

end Tables

end TileCoder
