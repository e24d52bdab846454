import TileCoder.Table.UndoLog

/-!
# Going back along the log

Since some moment, rows were put on the stacks of a log and updated. Put back in order, they lead
from the tables as they are to the tables of that moment (`UndoLog.LeadsBack`). The stacks are
unwound one after the other, not in the order in which rows were put on them: this is as good, since
a slot has all its rows on one stack. So an update that is recorded keeps the way back
(`LeadsBack.record`), and a rollback goes all of it (`LeadsBack.rollback_eq`).
-/

namespace TileCoder

namespace Tables

theorem set_set_self (tables : Tables) (slot : Slot) (first second : Cdf) :
    (tables.set slot first).set slot second = tables.set slot second := by
  simp [set]

theorem set_comm (tables : Tables) {slot other : Slot} (cdf another : Cdf)
    (different : slot ≠ other) :
    (tables.set slot cdf).set other another = (tables.set other another).set slot cdf := by
  simp only [set, mk.injEq]
  exact Vector.set_comm cdf another (mt Slot.index_injective different)

end Tables

namespace UndoLog

variable {log earlier : UndoLog} {tables before : Tables}

@[simp] theorem armed_record (log : UndoLog) (slot : Slot) (cdf : Cdf) :
    (log.record slot cdf).armed = log.armed := by
  unfold UndoLog.record
  split
  · rfl
  · split <;> rfl

/-! ## Rows that are put back -/

/-- A slot whose rows are not put back keeps its row. -/
theorem get_restore_of_ne {entries : List (Slot × Cdf)} {slot : Slot}
    (absent : ∀ entry ∈ entries, entry.1 ≠ slot) (tables : Tables) :
    (restore entries tables).get slot = tables.get slot := by
  induction entries generalizing tables with
  | nil => rfl
  | cons entry rest ih =>
      obtain ⟨here, later⟩ := List.forall_mem_cons.mp absent
      exact (ih later _).trans (tables.get_set_of_ne entry.2 here)

/-- A row may be set after others are put back as well as before. -/
theorem restore_set_of_ne {entries : List (Slot × Cdf)} {slot : Slot}
    (absent : ∀ entry ∈ entries, entry.1 ≠ slot) (tables : Tables) (cdf : Cdf) :
    restore entries (tables.set slot cdf) = (restore entries tables).set slot cdf := by
  induction entries generalizing tables with
  | nil => rfl
  | cons entry rest ih =>
      obtain ⟨here, later⟩ := List.forall_mem_cons.mp absent
      show restore rest ((tables.set slot cdf).set entry.1 entry.2) = _
      rw [tables.set_comm cdf entry.2 here.symm]
      exact ih later _

/-- To put back the last row first undoes its update. -/
theorem restore_cons_update (entries : List (Slot × Cdf)) (slot : Slot) (tables : Tables)
    (cdf : Cdf) :
    restore ((slot, tables.get slot) :: entries) (tables.set slot cdf) =
      restore entries tables := by
  show restore entries ((tables.set slot cdf).set slot (tables.get slot)) = _
  rw [Tables.set_set_self, Tables.set_get_self]

/-! ## The way back -/

/-- What a log has on top of an earlier one, put back, leads from the tables to those before. -/
def LeadsBack (log : UndoLog) (tables : Tables) (earlier : UndoLog) (before : Tables) : Prop :=
  ∃ short long, log.short = short ++ earlier.short ∧ log.long = long ++ earlier.long ∧
    (∀ entry ∈ short, entry.1.table.rowSize ≤ shortRow) ∧
    restore long (restore short tables) = before

theorem leadsBack_self (log : UndoLog) (tables : Tables) : log.LeadsBack tables log tables :=
  ⟨[], [], rfl, rfl, List.forall_mem_nil _, rfl⟩

/-- The update of a row that is recorded keeps the way back. -/
theorem LeadsBack.record (leads : log.LeadsBack tables earlier before) (armed : log.armed = true)
    (slot : Slot) (cdf : Cdf) :
    (log.record slot (tables.get slot)).LeadsBack (tables.set slot cdf) earlier before := by
  obtain ⟨short, long, short_eq, long_eq, shorts, back⟩ := leads
  unfold UndoLog.record
  rw [if_neg (by simp [armed])]
  split
  next fits =>
    refine ⟨(slot, tables.get slot) :: short, long, by rw [short_eq]; rfl, long_eq, ?_, ?_⟩
    · exact List.forall_mem_cons.mpr ⟨fits, shorts⟩
    · rw [restore_cons_update, back]
  next exceeds =>
    -- the stack of short rows is unwound first, but it has none of this slot
    have absent : ∀ entry ∈ short, entry.1 ≠ slot := by
      rintro entry member rfl
      exact exceeds (shorts entry member)
    refine ⟨short, (slot, tables.get slot) :: long, short_eq, by rw [long_eq]; rfl, shorts, ?_⟩
    rw [restore_set_of_ne absent, ← get_restore_of_ne absent tables, restore_cons_update, back]

theorem unwind_append (entries stack : List (Slot × Cdf)) (tables : Tables) :
    unwind (entries ++ stack) stack.length tables = (stack, restore entries tables) := by
  simp [unwind]

/-- **A rollback restores the log and the tables.** -/
theorem LeadsBack.rollback_eq (leads : log.LeadsBack tables earlier before) :
    log.rollback earlier.mark tables = ({ earlier with armed := log.armed }, before) := by
  obtain ⟨short, long, short_eq, long_eq, -, back⟩ := leads
  rw [rollback, mark, short_eq, long_eq, unwind_append]
  dsimp only
  rw [unwind_append, back]

end UndoLog

end TileCoder
