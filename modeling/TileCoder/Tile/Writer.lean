import TileCoder.Element.Program
import TileCoder.Range.Writer
import TileCoder.Table.UndoLog

/-!
Writing a tile.

A `TileWriter` is a range coder together with the tables that it adapts. It carries out the steps
of a plan one by one, also those in front of an error. A speculative stretch is undone by going
back to a `Checkpoint`: the coder is cut back and the log puts back the rows.
-/

namespace TileCoder

open TileCoder.Range
open scoped Plain

/-- The joint mass of some symbols, as the distribution of a flag. -/
def Cdf.gather (cdf : Cdf) (symbols : List Nat) : Cdf :=
  flagCdf (min (symbols.map cdf.mass).sum top)

/-- The filters that the planes of a tile remember. -/
structure PlaneMemories where
  luma : RestorationMemory
  blue : RestorationMemory
  red : RestorationMemory
  deriving DecidableEq, Repr

namespace PlaneMemories

def initial : PlaneMemories := ⟨.initial, .initial, .initial⟩

def get (memories : PlaneMemories) : Plane → RestorationMemory
  | .luma => memories.luma
  | .blue => memories.blue
  | .red => memories.red

def set (memories : PlaneMemories) (plane : Plane) (memory : RestorationMemory) : PlaneMemories :=
  match plane with
  | .luma => { memories with luma := memory }
  | .blue => { memories with blue := memory }
  | .red => { memories with red := memory }

@[simp] theorem get_set_self (memories : PlaneMemories) (plane : Plane)
    (memory : RestorationMemory) : (memories.set plane memory).get plane = memory := by
  cases plane <;> rfl

end PlaneMemories

/-- A tile that is being written. -/
structure TileWriter (σ : Type) where
  coder : Writer σ
  tables : Tables
  log : UndoLog
  /-- Whether rows adapt to what is coded. -/
  adapts : Bool
  memories : PlaneMemories

namespace TileWriter

variable {σ : Type} [Output σ]

/-- A tile in which nothing is written yet. -/
def new (tables : Tables) (adapts : Bool) : TileWriter σ :=
  { coder := .new
    tables
    log := .empty
    adapts
    memories := .initial }

/-- Codes a symbol with a row, which adapts to it. -/
def symbol (tile : TileWriter σ) (slot : Slot) (value : Nat) : TileWriter σ :=
  let cdf := tile.tables.get slot
  let coder := tile.coder.symbol cdf value
  if tile.adapts then
    { tile with
      coder
      log := tile.log.record slot cdf
      tables := tile.tables.set slot (cdf.update value) }
  else { tile with coder }

def step (tile : TileWriter σ) : Step → TileWriter σ
  | .symbol slot value => tile.symbol slot value
  | .gathered slot symbols flag =>
      let cdf := (tile.tables.get slot).gather symbols
      { tile with coder := tile.coder.symbol cdf flag.toNat }
  | .bit bit => { tile with coder := tile.coder.bit bit }
  | .remember plane memory => { tile with memories := tile.memories.set plane memory }

/-- Carries out the steps of a plan. -/
def run (tile : TileWriter σ) {α : Type} (plan : Plan α) : Except CodingError α × TileWriter σ :=
  (plan.result, plan.items.foldl step tile)

/-- Where a tile was: the coder and the log. -/
structure Checkpoint where
  coder : Range.Checkpoint
  log : LogMark
  deriving DecidableEq, Repr, Inhabited

/-- Remembers the present state, and from now on all rows that are updated. -/
def checkpoint (tile : TileWriter σ) : Checkpoint × TileWriter σ :=
  (⟨tile.coder.checkpoint, tile.log.mark⟩, { tile with log := tile.log.arm })

/-- Goes back to a checkpoint. The filters that planes remember are left to the caller. -/
def rollback (tile : TileWriter σ) (saved : Checkpoint) : TileWriter σ :=
  let (log, tables) := tile.log.rollback saved.log tile.tables
  { tile with coder := tile.coder.rollback saved.coder, log, tables }

/-- Keeps all that is coded: no checkpoint can be gone back to. -/
def commit (tile : TileWriter σ) : TileWriter σ := { tile with log := .empty }

end TileWriter

end TileCoder
