import TileCoder.Proofs.Element.Safe
import TileCoder.Proofs.Range.Guarded
import TileCoder.Proofs.Tile.InSync
import TileCoder.Tile.Primitive

/-!
# What a tile keeps

Whatever is done to a tile, its rows can be coded with. A writer may be told to code any steps,
also those in front of an error, and to go back to any checkpoint, as the rows in its log can be
coded with as well (`TileWriter.Kept`). A reader may be given any bytes: it keeps its tables and
its coder, and never finds a row to blame (`TileReader.Sound.run`).
-/

namespace TileCoder

open TileCoder.Range

/-! ## The log -/

/-- All rows that are kept can be coded with. -/
structure UndoLog.Kept (log : UndoLog) : Prop where
  short : ∀ entry ∈ log.short, entry.1.Holds entry.2
  long : ∀ entry ∈ log.long, entry.1.Holds entry.2

namespace UndoLog

variable {log : UndoLog} {tables : Tables}

theorem kept_empty : empty.Kept := ⟨nofun, nofun⟩

theorem Kept.record (kept : log.Kept) {slot : Slot} {cdf : Cdf} (holds : slot.Holds cdf) :
    (log.record slot cdf).Kept := by
  unfold UndoLog.record
  split
  · exact kept
  · split
    · exact ⟨List.forall_mem_cons.mpr ⟨holds, kept.short⟩, kept.long⟩
    · exact ⟨kept.short, List.forall_mem_cons.mpr ⟨holds, kept.long⟩⟩

theorem codable_restore {entries : List (Slot × Cdf)}
    (holds : ∀ entry ∈ entries, entry.1.Holds entry.2) (codable : tables.Codable) :
    (restore entries tables).Codable := by
  induction entries generalizing tables with
  | nil => exact codable
  | cons entry rest ih =>
      obtain ⟨here, later⟩ := List.forall_mem_cons.mp holds
      exact ih later (codable.set here)

/-- Unwinding a stack puts back some of its rows and keeps the others. -/
theorem kept_unwind {stack : List (Slot × Cdf)} (holds : ∀ entry ∈ stack, entry.1.Holds entry.2)
    (height : Nat) (codable : tables.Codable) :
    (∀ entry ∈ (unwind stack height tables).1, entry.1.Holds entry.2) ∧
      (unwind stack height tables).2.Codable := by
  constructor
  · intro entry member
    exact holds entry (List.mem_of_mem_drop member)
  · apply codable_restore _ codable
    intro entry member
    exact holds entry (List.mem_of_mem_take member)

theorem Kept.rollback (kept : log.Kept) (mark : LogMark) (codable : tables.Codable) :
    (log.rollback mark tables).1.Kept ∧ (log.rollback mark tables).2.Codable := by
  obtain ⟨short, between⟩ := kept_unwind kept.short mark.short codable
  obtain ⟨long, after⟩ := kept_unwind kept.long mark.long between
  exact ⟨⟨short, long⟩, after⟩

end UndoLog

/-! ## Writers -/

/-- What a tile keeps while anything is written: its rows can be coded with, and so can those that
it may go back to. -/
structure TileWriter.Kept {σ : Type} (tile : TileWriter σ) : Prop where
  tables : tile.tables.Codable
  log : tile.log.Kept

namespace TileWriter

variable {σ : Type} {tile : TileWriter σ}

theorem Kept.commit (kept : tile.Kept) : tile.commit.Kept := ⟨kept.tables, UndoLog.kept_empty⟩

variable [Output σ]

theorem kept_new {tables : Tables} (codable : tables.Codable) (adapts : Bool) :
    (new tables adapts : TileWriter σ).Kept :=
  ⟨codable, UndoLog.kept_empty⟩

theorem Kept.symbol (kept : tile.Kept) (slot : Slot) (value : Nat) :
    (tile.symbol slot value).Kept := by
  unfold TileWriter.symbol
  dsimp only
  split
  · exact ⟨kept.tables.update slot value, kept.log.record (kept.tables slot)⟩
  · exact ⟨kept.tables, kept.log⟩

theorem Kept.step (kept : tile.Kept) (taken : Step) : (tile.step taken).Kept := by
  cases taken with
  | symbol slot value => exact kept.symbol slot value
  | gathered | bit | remember => exact ⟨kept.tables, kept.log⟩

/-- Elements keep a tile, whether they are accepted or not. -/
theorem Kept.run {α : Type} (kept : tile.Kept) (plan : Plan α) : (tile.run plan).2.Kept := by
  unfold TileWriter.run
  dsimp only
  induction plan.items generalizing tile with
  | nil => exact kept
  | cons first rest ih => exact ih (kept.step first)

theorem Kept.put {α : Type} (kept : tile.Kept) (primitive : Primitive α) (value : α) :
    (tile.put primitive value).Kept := by
  cases primitive <;> exact ⟨kept.tables, kept.log⟩

theorem Kept.checkpoint (kept : tile.Kept) : tile.checkpoint.2.Kept :=
  ⟨kept.tables, kept.log.short, kept.log.long⟩

theorem Kept.rollback (kept : tile.Kept) (saved : Checkpoint) : (tile.rollback saved).Kept := by
  obtain ⟨log, tables⟩ := kept.log.rollback saved.log kept.tables
  exact ⟨tables, log⟩

end TileWriter

/-! ## Readers -/

namespace TileReader

/-- What a tile keeps while anything is read from any bytes. -/
structure Sound (tile : TileReader) : Prop where
  coder : tile.coder.Sound
  tables : tile.tables.Codable

/-- After a read the tile is sound, and the read did not come upon a row that is no distribution. -/
structure Blameless {α : Type} (read : Except CodingError α × TileReader) : Prop where
  sound : read.2.Sound
  blames_no_row : read.1 ≠ .error .corruptCdf

variable {tile : TileReader}

theorem sound_new {tables : Tables} (codable : tables.Codable) (payload : List UInt8)
    (adapts : Bool) : (new payload tables adapts).Sound :=
  ⟨Reader.sound_ofBytes payload, codable⟩

/-- An error passes on what was read before. -/
theorem Blameless.error {α β : Type} {error : CodingError}
    (first : Blameless ((.error error, tile) : Except CodingError α × TileReader)) :
    Blameless ((.error error, tile) : Except CodingError β × TileReader) := by
  refine ⟨first.sound, ?_⟩
  intro blames
  exact first.blames_no_row (congrArg _ (Except.error.inj blames))

theorem Sound.symbol (sound : tile.Sound) (slot : Slot) : Blameless (tile.symbol slot) := by
  have coded := sound.coder.symbol_blameless (sound.tables slot).usable
  have next := sound.coder.symbol (tile.tables.get slot)
  unfold TileReader.symbol
  split
  next error coder read =>
    rw [read] at next coded
    exact ⟨⟨next, sound.tables⟩, by simpa using coded⟩
  next value coder read =>
    rw [read] at next
    refine ⟨⟨next, ?_⟩, by simp⟩
    dsimp only
    split
    · exact sound.tables.update slot value
    · exact sound.tables

theorem Sound.gathered (sound : tile.Sound) {slot : Slot} {symbols : List Nat}
    (gathers : slot.table.Gathers symbols) : Blameless (tile.gathered slot symbols) := by
  have usable := (sound.tables slot).usable_gather gathers
  have next := sound.coder.symbol ((tile.tables.get slot).gather symbols)
  exact ⟨⟨next, sound.tables⟩, sound.coder.symbol_blameless usable⟩

theorem Sound.bit (sound : tile.Sound) : Blameless tile.bit := by
  have even : evenOdds < Cdf.top := by decide
  exact ⟨⟨sound.coder.flag even, sound.tables⟩, sound.coder.flag_blameless even⟩

/-- **A safe reader of any bytes keeps the tile**, and never finds a row that is no distribution. -/
theorem Sound.run {α : Type} {read : Parse α} (sound : tile.Sound) (safe : read.Safe) :
    Blameless (tile.run read) := by
  -- on the tree of the reader: an error ends it, and a value selects the subtree to go on with
  induction read generalizing tile with
  | done value => exact ⟨sound, nofun⟩
  | fail error =>
      refine ⟨sound, ?_⟩
      intro blames
      exact safe (Except.error.inj blames)
  | symbol slot next ih =>
      have first := sound.symbol slot
      rw [TileReader.run]
      generalize tile.symbol slot = read at first ⊢
      obtain ⟨_ | value, after⟩ := read
      · exact first.error
      · exact ih value first.sound (safe value)
  | gathered slot symbols next ih =>
      obtain ⟨gathers, rest⟩ := safe
      have first := sound.gathered gathers
      rw [TileReader.run]
      generalize tile.gathered slot symbols = read at first ⊢
      obtain ⟨_ | value, after⟩ := read
      · exact first.error
      · exact ih _ first.sound (rest _)
  | bit next ih =>
      have first := sound.bit
      rw [TileReader.run]
      generalize tile.bit = read at first ⊢
      obtain ⟨_ | value, after⟩ := read
      · exact first.error
      · exact ih value first.sound (safe value)
  | remember plane memory next ih => exact ih ⟨sound.coder, sound.tables⟩ safe

/-- Checked primitives keep a tile. -/
theorem Sound.getChecked {α : Type} (sound : tile.Sound) (primitive : Primitive α) :
    (tile.getChecked primitive).2.Sound := by
  unfold TileReader.getChecked
  split
  · exact sound
  next accepted =>
    cases primitive with
    | flag mass =>
        have inside : 0 < mass ∧ mass < Cdf.top := by
          by_contra outside
          rw [Primitive.checkRead, Primitive.checkMass, if_neg outside] at accepted
          cases accepted
        exact ⟨sound.coder.flag inside.2, sound.tables⟩
    | symbol cdf => exact ⟨sound.coder.symbol cdf, sound.tables⟩
    | adapting cdf => exact ⟨sound.coder.symbol cdf, sound.tables⟩
    | number code => exact (sound.run code.safe_read).sound
    | signed low high k reference =>
        exact (sound.run (Parse.safe_readSignedSubexp low high k reference)).sound

end TileReader

end TileCoder
