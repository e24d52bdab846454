import TileCoder.Table.Tables

/-!
Taking back adaptation.

While the log is armed it keeps every row as it was before an update: short rows on one stack and
long rows on another. A checkpoint is the pair of heights, and rolling back unwinds both stacks, so
that each row is at last what it was at the checkpoint.
-/

namespace TileCoder

/-- The heights of the two stacks at some moment. -/
structure LogMark where
  short : Nat
  long : Nat
  deriving DecidableEq, Repr, Inhabited

/-- Rows as they were before they were updated, the latest first. -/
structure UndoLog where
  short : List (Slot × Cdf)
  long : List (Slot × Cdf)
  armed : Bool
  deriving DecidableEq

namespace UndoLog

/-- Nothing to take back, and nothing that is kept. -/
def empty : UndoLog := ⟨[], [], false⟩

/-- The longest row that goes on the stack of short rows. -/
def shortRow : Nat := 5

/-- Keeps a row, if the log is armed. -/
def record (log : UndoLog) (slot : Slot) (cdf : Cdf) : UndoLog :=
  if !log.armed then log
  else if slot.table.rowSize ≤ shortRow then { log with short := (slot, cdf) :: log.short }
  else { log with long := (slot, cdf) :: log.long }

def mark (log : UndoLog) : LogMark := ⟨log.short.length, log.long.length⟩

/-- Starts keeping rows. -/
def arm (log : UndoLog) : UndoLog := { log with armed := true }

/-- Puts rows back, the latest first. -/
def restore (entries : List (Slot × Cdf)) (tables : Tables) : Tables :=
  entries.foldl (fun tables (slot, cdf) => tables.set slot cdf) tables

/-- Unwinds a stack to a height: what is left of it, and the tables with the rest put back. -/
def unwind (stack : List (Slot × Cdf)) (height : Nat) (tables : Tables) :
    List (Slot × Cdf) × Tables :=
  let excess := stack.length - height
  (stack.drop excess, restore (stack.take excess) tables)

/-- Unwinds both stacks to a checkpoint. -/
def rollback (log : UndoLog) (mark : LogMark) (tables : Tables) : UndoLog × Tables :=
  let (short, tables) := unwind log.short mark.short tables
  let (long, tables) := unwind log.long mark.long tables
  ({ log with short, long }, tables)

end UndoLog

end TileCoder
