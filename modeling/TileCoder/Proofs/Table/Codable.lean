import Mathlib.Algebra.BigOperators.Group.List.Basic
import TileCoder.Proofs.Range.Share
import TileCoder.Proofs.Table.Counters
import TileCoder.Table.UndoLog

/-!
# Codable tables

All rows of a store can be coded with (`Tables.Codable`): so it is for the trained tables
(`Tables.codable_initial`), and so it stays when a row adapts, when rows are put back from a log and
when counters are reset.
-/

namespace TileCoder

/-- A row of a table: codable, and as long as the table's alphabet asks. -/
structure Slot.Holds (slot : Slot) (cdf : Cdf) : Prop where
  codable : cdf.Codable
  length_eq : cdf.length = slot.table.rowSize

/-- Every row can be coded with. -/
def Tables.Codable (tables : Tables) : Prop := ∀ slot : Slot, slot.Holds (tables.get slot)

namespace Slot.Holds

variable {slot : Slot} {cdf : Cdf}

theorem arity_eq (holds : slot.Holds cdf) : cdf.arity = slot.table.symbols := by
  rw [Cdf.arity, holds.length_eq]
  rfl

theorem usable (holds : slot.Holds cdf) : cdf.Usable := by
  refine ⟨holds.codable, ?_⟩
  rw [holds.arity_eq]
  exact slot.table.symbols_le

theorem update (holds : slot.Holds cdf) (symbol : Nat) : slot.Holds (cdf.update symbol) :=
  ⟨holds.codable.update symbol, by rw [Cdf.length_update, holds.length_eq]⟩

theorem resetCount (holds : slot.Holds cdf) : slot.Holds cdf.resetCount :=
  ⟨holds.codable.resetCount, by rw [Cdf.length_resetCount, holds.length_eq]⟩

end Slot.Holds

namespace Tables

variable {tables : Tables}

theorem Codable.set (codable : tables.Codable) {slot : Slot} {cdf : Cdf} (holds : slot.Holds cdf) :
    (tables.set slot cdf).Codable := by
  intro other
  by_cases same : slot = other
  · subst same
    rw [get_set_self]
    exact holds
  · rw [get_set_of_ne _ _ same]
    exact codable other

theorem Codable.update (codable : tables.Codable) (slot : Slot) (symbol : Nat) :
    (tables.update slot symbol).Codable :=
  codable.set ((codable slot).update symbol)

theorem Codable.resetCounts (codable : tables.Codable) : tables.resetCounts.Codable := by
  intro slot
  rw [get_resetCounts]
  exact (codable slot).resetCount

/-! ## The trained tables -/

/-- What is made of an element of a list stands behind what is made of the elements before it. -/
theorem getElem?_flatMap {α β : Type} {f : α → List β} {list : List α} {k : Nat} {a : α}
    (listed : list[k]? = some a) {i : Nat} (inside : i < (f a).length) :
    (list.flatMap f)[((list.take k).map fun a => (f a).length).sum + i]? = (f a)[i]? := by
  obtain ⟨k_lt, rfl⟩ := List.getElem?_eq_some_iff.mp listed
  have lengths : ((list.take k).map fun a => (f a).length) =
      ((list.map f).map List.length).take k := by
    rw [List.map_map, List.map_take]
    rfl
  rw [lengths, ← List.getElem?_drop, List.flatMap_def, List.drop_sum_flatten, ← List.map_drop,
    List.drop_eq_getElem_cons k_lt, List.map_cons, List.flatten_cons,
    List.getElem?_append_left inside]

/-- A slot holds one of its table's trained rows at the start. -/
theorem get_initial (slot : Slot) :
    ∃ shares ∈ slot.table.trained, initial.get slot = Cdf.ofShares shares := by
  let rowsOf (table : Table) : List Cdf := table.trained.map Cdf.ofShares
  have length_rowsOf (table : Table) : (rowsOf table).length = table.rows := by
    rw [List.length_map, Table.length_trained]
  have row_lt : slot.row.val < slot.table.trained.length := by
    rw [Table.length_trained]
    exact slot.row.isLt
  have entry : initialRows[slot.index]? = (rowsOf slot.table)[slot.row.val]? := by
    have stored := getElem?_flatMap slot.table.all_getElem? (f := rowsOf) (i := slot.row.val)
      (by rw [length_rowsOf]; exact slot.row.isLt)
    simp only [length_rowsOf] at stored
    exact stored
  rw [List.getElem?_map, List.getElem?_eq_getElem row_lt, Option.map_some] at entry
  refine ⟨_, List.getElem_mem row_lt, ?_⟩
  obtain ⟨_, found⟩ := List.getElem?_eq_some_iff.mp entry
  exact found

end Tables

/-- The trained rows of a table can be coded with, and no symbol was yet. -/
def Table.Trains (table : Table) : Prop :=
  ∀ shares ∈ table.trained, (Cdf.ofShares shares).Codable ∧
    (Cdf.ofShares shares).length = table.rowSize ∧ (Cdf.ofShares shares).count = 0

instance (table : Table) : Decidable table.Trains := inferInstanceAs (Decidable (∀ _ ∈ _, _))

theorem Table.trains (table : Table) : table.Trains := by
  cases table <;> decide +kernel

namespace Tables

theorem codable_initial : initial.Codable := by
  intro slot
  obtain ⟨shares, member, row⟩ := get_initial slot
  obtain ⟨codable, length, -⟩ := slot.table.trains shares member
  rw [row]
  exact ⟨codable, length⟩

/-- No symbol was coded since the counters were reset. -/
def Fresh (tables : Tables) : Prop := ∀ slot, (tables.get slot).count = 0

theorem fresh_initial : initial.Fresh := by
  intro slot
  obtain ⟨shares, member, row⟩ := get_initial slot
  obtain ⟨-, -, count⟩ := slot.table.trains shares member
  rw [row, count]

theorem fresh_resetCounts (tables : Tables) : tables.resetCounts.Fresh := by
  intro slot
  rw [get_resetCounts]
  exact Cdf.count_resetCount _

theorem resetCounts_of_fresh {tables : Tables} (fresh : tables.Fresh) :
    tables.resetCounts = tables := by
  apply ext_get
  intro slot
  rw [get_resetCounts, Cdf.resetCount_of_count (fresh slot)]

end Tables

end TileCoder
