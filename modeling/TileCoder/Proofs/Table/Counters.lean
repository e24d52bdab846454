import TileCoder.Proofs.Cdf.Codable
import TileCoder.Table.Tables

/-!
# Counters

A reset visits the tables one after another, each through the arrays that its rows are nested in. So
it resets the rows of a table that it visits (`get_resetTable`), and as it visits all tables, each
row is reset (`get_resetCounts`).
-/

namespace TileCoder

/-- The arrays of a table hold its rows. -/
theorem Table.rowsIn_nesting (table : Table) : rowsIn table.nesting = table.rows := by
  cases table <;> rfl

/-- No table is left out. -/
theorem Table.mem_resetOrder (table : Table) : table ∈ resetOrder := by
  cases table <;> decide

theorem Slot.eq_at_iff {slot : Slot} {table : Table} {row : Nat} (inside : row < table.rows) :
    slot = table.at row ↔ slot.table = table ∧ slot.row = row := by
  constructor
  · rintro rfl
    exact ⟨rfl, congrArg Fin.val (Table.row_at inside)⟩
  · obtain ⟨own, number⟩ := slot
    rintro ⟨rfl, rfl⟩
    rw [Table.at, Slot.mk.injEq]
    refine ⟨rfl, heq_of_eq (Fin.ext ?_)⟩
    show number.val = min number.val (own.rows - 1)
    omega

/-- A slot is one of so many rows of a table, from one row on. -/
def Slot.Among (slot : Slot) (table : Table) (row count : Nat) : Prop :=
  slot.table = table ∧ row ≤ slot.row ∧ slot.row < row + count

instance (slot : Slot) (table : Table) (row count : Nat) : Decidable (slot.Among table row count) :=
  inferInstanceAs (Decidable (_ ∧ _ ∧ _))

theorem Slot.among_one_iff {slot : Slot} {table : Table} {row : Nat} (inside : row < table.rows) :
    slot.Among table row 1 ↔ slot = table.at row := by
  rw [eq_at_iff inside]
  exact and_congr_right fun _ => by omega

/-- All rows of a table. -/
theorem Slot.among_all_iff {slot : Slot} {table : Table} :
    slot.Among table 0 (Table.rowsIn table.nesting) ↔ slot.table = table := by
  rw [table.rowsIn_nesting]
  constructor
  · exact fun among => among.1
  · rintro rfl
    exact ⟨rfl, Nat.zero_le _, by omega⟩

namespace Tables

/-- Parts of a table that are reset one after another are reset together. -/
theorem get_foldl_parts {table : Table} {row size parts : Nat} {reset : Tables → Nat → Tables}
    (each : ∀ part < parts, ∀ tables slot, (reset tables part).get slot =
      if slot.Among table (row + part * size) size then (tables.get slot).resetCount
      else tables.get slot)
    (tables : Tables) (slot : Slot) :
    ((List.range parts).foldl reset tables).get slot =
      if slot.Among table row (parts * size) then (tables.get slot).resetCount
      else tables.get slot := by
  induction parts with
  | zero =>
      rw [List.range_zero, List.foldl_nil, if_neg]
      unfold Slot.Among
      omega
  | succ parts ih =>
      rw [List.range_succ, List.foldl_append, List.foldl_cons, List.foldl_nil,
        each parts (Nat.lt_succ_self _), ih fun part below => each part (Nat.lt_succ_of_lt below)]
      -- a row is in the last part, in one before it, or in none
      unfold Slot.Among
      rw [Nat.succ_mul]
      grind

theorem get_resetNested (table : Table) (lengths : List Nat) {row : Nat}
    (inside : row + Table.rowsIn lengths ≤ table.rows) (tables : Tables) (slot : Slot) :
    (resetNested table lengths row tables).get slot =
      if slot.Among table row (Table.rowsIn lengths) then (tables.get slot).resetCount
      else tables.get slot := by
  induction lengths generalizing row tables slot with
  | nil =>
      rw [Table.rowsIn] at inside ⊢
      unfold resetNested
      by_cases same : slot = table.at row
      · rw [if_pos ((Slot.among_one_iff inside).mpr same), same, get_set_self]
      · rw [get_set_of_ne _ _ (Ne.symm same), if_neg (mt (Slot.among_one_iff inside).mp same)]
  | cons length inner ih =>
      rw [Table.rowsIn] at inside ⊢
      refine get_foldl_parts (fun part below tables slot => ih ?_ tables slot) tables slot
      have room : (part + 1) * Table.rowsIn inner ≤ length * Table.rowsIn inner :=
        Nat.mul_le_mul_right _ below
      rw [Nat.succ_mul] at room
      omega

/-- All rows of the table are reset, and no others. -/
theorem get_resetTable (tables : Tables) (table : Table) (slot : Slot) :
    (tables.resetTable table).get slot =
      if slot.table = table then (tables.get slot).resetCount else tables.get slot := by
  rw [resetTable, get_resetNested table table.nesting (by rw [table.rowsIn_nesting]; omega)]
  exact if_congr Slot.among_all_iff rfl rfl

/-- A row of a table that is visited is reset, however often. -/
theorem get_foldl_resetTable (visited : List Table) (tables : Tables) (slot : Slot) :
    (visited.foldl resetTable tables).get slot =
      if slot.table ∈ visited then (tables.get slot).resetCount else tables.get slot := by
  induction visited generalizing tables with
  | nil => rfl
  | cons table rest ih =>
      rw [List.foldl_cons, ih, get_resetTable]
      by_cases own : slot.table = table <;> by_cases later : slot.table ∈ rest <;>
        simp [own, later]

@[simp] theorem get_resetCounts (tables : Tables) (slot : Slot) :
    tables.resetCounts.get slot = (tables.get slot).resetCount := by
  unfold resetCounts
  exact (get_foldl_resetTable _ _ _).trans (if_pos slot.table.mem_resetOrder)

end Tables

end TileCoder
