import TileCoder.Frame.Basic
import TileCoder.Proofs.Tile.Kept
import TileCoder.Proofs.Tile.Programs

/-!
# Whole runs

A `Run` is all that a coder of frames holds at some moment: the slots, the frames that have begun,
the tiles that are open on either side, and the outcomes of those that were closed. An `Event` does
one thing with it, and may name whatever is there in any order: a frame may begin while another is
open, tiles of several frames may be coded in turn, and any outcome may be handed to any frame.

Every event keeps `Run.Sound`, so that it holds of every run that starts with empty slots
(`Run.sound_after`): all rows can be coded with, wherever they are, and the counters of all tables
that a frame starts with or leaves are zero. No read of an element can then come upon a row that is
no distribution (`Run.codable_after`).
-/

namespace TileCoder

open TileCoder.Range

/-! ## Where tables come from and where they go -/

/-- How a frame starts, and what it leaves: every row can be coded with, and no counter has
moved. -/
structure Tables.Ready (tables : Tables) : Prop where
  codable : tables.Codable
  fresh : tables.Fresh

theorem Tables.Codable.ready_resetCounts {tables : Tables} (codable : tables.Codable) :
    tables.resetCounts.Ready :=
  ⟨codable.resetCounts, fresh_resetCounts tables⟩

/-- All slots that are filled hold tables that a frame may start from. -/
def ReferenceSlots.Ready (slots : ReferenceSlots) : Prop :=
  ∀ slot tables, slots.get? slot = some tables → tables.Ready

/-- All slots that are filled hold rows that can be coded with. -/
def ReferenceSlots.Codable (slots : ReferenceSlots) : Prop :=
  ∀ slot tables, slots.get? slot = some tables → tables.Codable

namespace ReferenceSlots

theorem Ready.codable {slots : ReferenceSlots} (ready : slots.Ready) : slots.Codable :=
  fun slot tables found => (ready slot tables found).codable

theorem ready_empty : empty.Ready := by
  intro slot tables found
  rw [get?_empty] at found
  cases found

/-- What holds of the tables in all slots, and of the tables that fill some, holds after that. -/
theorem forall_refresh {p : Tables → Prop} {slots : ReferenceSlots} {tables : Tables}
    (all : ∀ slot saved, slots.get? slot = some saved → p saved) (new : p tables) (flags : Nat) :
    ∀ slot saved, (slots.refresh flags tables).get? slot = some saved → p saved := by
  intro slot saved found
  by_cases inRange : slot < slotCount
  · rw [get?_refresh slots flags tables inRange] at found
    split at found
    · cases found
      exact new
    · exact all slot saved found
  · rw [get?, Vector.getElem?_eq_none (by omega)] at found
    cases found

theorem Ready.refresh {slots : ReferenceSlots} {tables : Tables} (ready : slots.Ready)
    (left : tables.Ready) (flags : Nat) : (slots.refresh flags tables).Ready :=
  forall_refresh ready left flags

theorem Codable.refresh {slots : ReferenceSlots} {tables : Tables} (codable : slots.Codable)
    (left : tables.Codable) (flags : Nat) : (slots.refresh flags tables).Codable :=
  forall_refresh codable left flags

end ReferenceSlots

namespace Frame

variable {params : FrameParams} {slots next : ReferenceSlots} {frame : Frame} {chosen : TileOutcome}
  {tables : Tables}

theorem codable_startTables (codable : slots.Codable)
    (found : startTables params slots = .ok tables) : tables.Codable := by
  unfold startTables at found
  split at found
  · cases found
    exact Tables.codable_initial
  · split at found
    next filled =>
      cases found
      exact codable _ tables filled
    · cases found

/-- A frame begins with its own fields, and no limit for its tiles. -/
theorem begin_spec (begun : begin params slots = .ok frame) :
    frame.params = params ∧ frame.budget = none ∧
      ∃ tables, startTables params slots = .ok tables ∧ frame.start = tables.resetCounts := by
  obtain ⟨_, _, begun⟩ := bind_eq_ok.mp begun
  obtain ⟨tables, found, begun⟩ := bind_eq_ok.mp begun
  cases begun
  exact ⟨rfl, rfl, tables, found, rfl⟩

/-- A frame starts with tables that are ready, if they come from slots that can be coded with. -/
theorem ready_begin (codable : slots.Codable) (begun : begin params slots = .ok frame) :
    frame.start.Ready := by
  obtain ⟨-, -, tables, found, start⟩ := begin_spec begun
  rw [start]
  exact (codable_startTables codable found).ready_resetCounts

theorem ready_endTables (start : frame.start.Codable) (outcome : chosen.tables.Codable) :
    (frame.endTables chosen).Ready := by
  apply Tables.Codable.ready_resetCounts
  split
  · exact start
  · exact outcome

/-- A frame leaves tables that are ready, in the slots that it overwrites. -/
theorem ready_finish (ready : slots.Ready) (start : frame.start.Codable)
    (outcome : chosen.tables.Codable) (finished : frame.finish chosen slots = .ok (tables, next)) :
    tables.Ready ∧ next.Ready := by
  have left := ready_endTables start outcome
  unfold finish at finished
  split at finished
  · cases finished
  · cases finished
    exact ⟨left, ready.refresh left _⟩

end Frame

/-! ## Tiles of frames -/

/-- A tile of a frame that is being read. -/
structure FrameReader where
  id : Nat
  tile : TileReader

/-- What may be done to a tile that is written. -/
inductive WriterEvent : Type 1 where
  /-- An element is written, whether its value is accepted or not. -/
  | element (written : Written)
  /-- Something outside of the elements is written, once it is checked. -/
  | primitive {α : Type} (primitive : Primitive α) (value : α)
  | checkpoint
  /-- The tile goes back to a checkpoint, be it live or not. -/
  | rollback (saved : TileWriter.Checkpoint)
  | commit

/-- What may be done to a tile that is read, whether it succeeds or not. -/
inductive ReaderEvent : Type 1 where
  | element {α : Type} (element : Element α)
  | primitive {α : Type} (primitive : Primitive α)

/-- A tile after something was done to it. -/
def FrameTile.after (tile : FrameTile Payload) : WriterEvent → FrameTile Payload
  | .element written => { tile with writer := written.write tile.writer }
  | .primitive primitive value => (tile.put primitive value).2
  | .checkpoint => { tile with writer := tile.writer.checkpoint.2 }
  | .rollback saved => { tile with writer := tile.writer.rollback saved }
  | .commit => { tile with writer := tile.writer.commit }

/-- A tile after something was read from it. -/
def FrameReader.after (reader : FrameReader) : ReaderEvent → FrameReader
  | .element element => { reader with tile := (reader.tile.run element.read).2 }
  | .primitive primitive => { reader with tile := (reader.tile.getChecked primitive).2 }

theorem FrameTile.kept_after {tile : FrameTile Payload} (kept : tile.writer.Kept)
    (event : WriterEvent) : (tile.after event).writer.Kept := by
  cases event with
  | element written => exact kept.run _
  | primitive primitive value =>
      unfold FrameTile.after FrameTile.put
      dsimp only
      split
      · exact kept
      · exact kept.put primitive value
  | checkpoint => exact kept.checkpoint
  | rollback saved => exact kept.rollback saved
  | commit => exact kept.commit

theorem FrameReader.sound_after {reader : FrameReader} (sound : reader.tile.Sound)
    (event : ReaderEvent) : (reader.after event).tile.Sound := by
  cases event with
  | element element => exact (sound.run element.safe_read).sound
  | primitive primitive => exact sound.getChecked primitive

theorem FrameTile.tables_of_finish {tile : FrameTile Payload} {payload : List UInt8}
    {outcome : TileOutcome} (finished : tile.finish = .ok (payload, outcome)) :
    outcome.tables = tile.writer.tables := by
  obtain ⟨_, _, finished⟩ := bind_eq_ok.mp finished
  cases finished
  rfl

/-! ## Lists of what is open -/

section Lists

variable {α : Type} {entries : List α} {p : α → Prop}

/-- What holds of all entries of a list holds of those that are left when one is taken out. -/
theorem forall_mem_eraseIdx (all : ∀ entry ∈ entries, p entry) (i : Nat) :
    ∀ entry ∈ entries.eraseIdx i, p entry :=
  fun entry member => all entry (List.mem_of_mem_eraseIdx member)

/-- What holds of all entries still holds when one is changed so that it does. -/
theorem forall_mem_modify {change : α → α} (all : ∀ entry ∈ entries, p entry)
    (kept : ∀ entry, p entry → p (change entry)) (i : Nat) :
    ∀ entry ∈ entries.modify i change, p entry := by
  intro entry member
  obtain ⟨j, inside, rfl⟩ := List.mem_iff_getElem.mp member
  rw [List.getElem_modify]
  split
  · exact kept _ (all _ (List.getElem_mem _))
  · exact all _ (List.getElem_mem _)

/-- What holds of all entries holds with one more, if there is one that does. -/
theorem forall_mem_toList_append {extra : Option α}
    (new : ∀ entry, extra = some entry → p entry) (all : ∀ entry ∈ entries, p entry) :
    ∀ entry ∈ extra.toList ++ entries, p entry := by
  intro entry member
  rcases List.mem_append.mp member with found | old
  · exact new entry (Option.mem_toList.mp found)
  · exact all entry old

end Lists

/-! ## Runs -/

/-- All that a coder of frames holds. -/
structure Run where
  slots : ReferenceSlots
  /-- The frames that have begun and not ended. -/
  frames : List Frame
  writers : List (FrameTile Payload)
  readers : List FrameReader
  /-- What closed tiles have left, as far as no frame has ended with it. -/
  outcomes : List TileOutcome
  /-- What the frames that have ended left. -/
  left : List Tables

/-- What may happen in a run. Frames, tiles and outcomes are named by their places. -/
inductive Event : Type 1 where
  | begin (params : FrameParams)
  | limit (frame bytes : Nat)
  | openWriter (frame id : Nat)
  | openReader (frame id : Nat) (payload : List UInt8)
  | write (tile : Nat) (event : WriterEvent)
  | read (tile : Nat) (event : ReaderEvent)
  | closeWriter (tile : Nat)
  | closeReader (tile : Nat)
  | finish (frame outcome : Nat)
  | abandon (frame : Nat)

namespace Run

/-- Nothing has happened yet. -/
def start : Run := ⟨.empty, [], [], [], [], []⟩

/-- Begins a frame, if it may. -/
def begin (run : Run) (params : FrameParams) : Run :=
  match Frame.begin params run.slots with
  | .ok frame => { run with frames := frame :: run.frames }
  | .error _ => run

/-- Ends a tile; one that is too long leaves nothing. -/
def closeWriter (run : Run) (i : Nat) : Run :=
  match run.writers[i]? with
  | none => run
  | some tile =>
      let outcomes :=
        match tile.finish with
        | .ok (_, outcome) => outcome :: run.outcomes
        | .error _ => run.outcomes
      { run with writers := run.writers.eraseIdx i, outcomes }

/-- Ends a tile that was read, at any place of its payload. -/
def closeReader (run : Run) (i : Nat) : Run :=
  match run.readers[i]? with
  | none => run
  | some reader =>
      { run with
        readers := run.readers.eraseIdx i
        outcomes := ⟨reader.id, reader.tile.tables⟩ :: run.outcomes }

/-- Ends a frame with an outcome, both of which are gone, also if they do not belong together. -/
def finish (run : Run) (i j : Nat) : Run :=
  match run.frames[i]?, run.outcomes[j]? with
  | some frame, some chosen =>
      let rest := { run with frames := run.frames.eraseIdx i, outcomes := run.outcomes.eraseIdx j }
      match frame.finish chosen run.slots with
      | .ok (tables, slots) => { rest with slots, left := tables :: run.left }
      | .error _ => rest
  | _, _ => run

/-- A run after one event. -/
def step (run : Run) : Event → Run
  | .begin params => run.begin params
  | .limit i bytes => { run with frames := run.frames.modify i (·.withBudget bytes) }
  | .openWriter i id =>
      { run with writers := (run.frames[i]?.map (·.writeTile id)).toList ++ run.writers }
  | .openReader i id payload =>
      { run with
        readers := (run.frames[i]?.map fun frame => ⟨id, frame.readTile payload⟩).toList ++
          run.readers }
  | .write i event => { run with writers := run.writers.modify i (·.after event) }
  | .read i event => { run with readers := run.readers.modify i (·.after event) }
  | .closeWriter i => run.closeWriter i
  | .closeReader i => run.closeReader i
  | .finish i j => run.finish i j
  | .abandon i => { run with frames := run.frames.eraseIdx i }

/-- A run after some events, from empty slots on. -/
def after (events : List Event) : Run := events.foldl step start

/-- All tables of a run can be coded with, and so can whatever a tile may go back to; where a frame
starts or has ended they are ready for the next one. -/
structure Sound (run : Run) : Prop where
  slots : run.slots.Ready
  frames : ∀ frame ∈ run.frames, frame.start.Ready
  writers : ∀ tile ∈ run.writers, tile.writer.Kept
  readers : ∀ reader ∈ run.readers, reader.tile.Sound
  outcomes : ∀ outcome ∈ run.outcomes, outcome.tables.Codable
  left : ∀ tables ∈ run.left, tables.Ready

variable {run : Run}

theorem sound_start : start.Sound where
  slots := ReferenceSlots.ready_empty
  frames := List.forall_mem_nil _
  writers := List.forall_mem_nil _
  readers := List.forall_mem_nil _
  outcomes := List.forall_mem_nil _
  left := List.forall_mem_nil _

/-! ### Events -/

theorem Sound.begin (sound : run.Sound) (params : FrameParams) : (run.begin params).Sound := by
  unfold Run.begin
  split
  next frame begun =>
    have ready := Frame.ready_begin sound.slots.codable begun
    exact { sound with frames := List.forall_mem_cons.mpr ⟨ready, sound.frames⟩ }
  · exact sound

theorem Sound.closeWriter (sound : run.Sound) (i : Nat) : (run.closeWriter i).Sound := by
  unfold Run.closeWriter
  split
  · exact sound
  next tile found =>
    have kept := sound.writers tile (List.mem_of_getElem? found)
    refine { sound with writers := forall_mem_eraseIdx sound.writers i, outcomes := ?_ }
    dsimp only
    split
    next payload outcome finished =>
      have codable : outcome.tables.Codable := by
        rw [FrameTile.tables_of_finish finished]
        exact kept.tables
      exact List.forall_mem_cons.mpr ⟨codable, sound.outcomes⟩
    · exact sound.outcomes

theorem Sound.closeReader (sound : run.Sound) (i : Nat) : (run.closeReader i).Sound := by
  unfold Run.closeReader
  split
  · exact sound
  next reader found =>
    have kept := sound.readers reader (List.mem_of_getElem? found)
    exact { sound with
      readers := forall_mem_eraseIdx sound.readers i
      outcomes := List.forall_mem_cons.mpr ⟨kept.tables, sound.outcomes⟩ }

theorem Sound.finish (sound : run.Sound) (i j : Nat) : (run.finish i j).Sound := by
  unfold Run.finish
  split
  next frame chosen frame_found chosen_found =>
    have start := sound.frames frame (List.mem_of_getElem? frame_found)
    have outcome := sound.outcomes chosen (List.mem_of_getElem? chosen_found)
    -- an attempt to finish uses up the frame and the chosen tables, even if it fails
    have rest : Sound { run with
        frames := run.frames.eraseIdx i
        outcomes := run.outcomes.eraseIdx j } :=
      { sound with
        frames := forall_mem_eraseIdx sound.frames i
        outcomes := forall_mem_eraseIdx sound.outcomes j }
    dsimp only
    split
    next tables slots finished =>
      obtain ⟨ready, next⟩ := Frame.ready_finish sound.slots start.codable outcome finished
      exact { rest with
        slots := next
        left := List.forall_mem_cons.mpr ⟨ready, sound.left⟩ }
    · exact rest
  · exact sound

/-- Every event keeps a run sound. -/
theorem Sound.step (sound : run.Sound) (event : Event) : (run.step event).Sound := by
  cases event with
  | begin params => exact sound.begin params
  | limit i bytes =>
      have kept (frame : Frame) (ready : frame.start.Ready) :
          (frame.withBudget bytes).start.Ready := ready
      exact { sound with frames := forall_mem_modify sound.frames kept i }
  | openWriter i id =>
      refine { sound with writers := forall_mem_toList_append ?_ sound.writers }
      intro tile opened
      obtain ⟨frame, found, rfl⟩ := Option.map_eq_some_iff.mp opened
      have ready := sound.frames frame (List.mem_of_getElem? found)
      exact TileWriter.kept_new ready.codable _
  | openReader i id payload =>
      refine { sound with readers := forall_mem_toList_append ?_ sound.readers }
      intro reader opened
      obtain ⟨frame, found, rfl⟩ := Option.map_eq_some_iff.mp opened
      have ready := sound.frames frame (List.mem_of_getElem? found)
      exact TileReader.sound_new ready.codable payload _
  | write i event =>
      have kept := forall_mem_modify sound.writers
        (fun _ kept => FrameTile.kept_after kept event) i
      exact { sound with writers := kept }
  | read i event =>
      have kept := forall_mem_modify sound.readers
        (fun _ kept => FrameReader.sound_after kept event) i
      exact { sound with readers := kept }
  | closeWriter i => exact sound.closeWriter i
  | closeReader i => exact sound.closeReader i
  | finish i j => exact sound.finish i j
  | abandon i => exact { sound with frames := forall_mem_eraseIdx sound.frames i }

theorem Sound.foldl (sound : run.Sound) (events : List Event) :
    (events.foldl Run.step run).Sound := by
  induction events generalizing run with
  | nil => exact sound
  | cons event rest ih => exact ih (sound.step event)

/-- Every run that starts with empty slots is sound. -/
theorem sound_after (events : List Event) : (after events).Sound := sound_start.foldl events

/-- **All rows can be coded with in every run.** Whatever happens in a run that starts with empty
slots, the rows of all tables can be coded with: those of the slots, of the frames, of the tiles on
both sides and of what they have left. The counters are zero in the slots, where a frame starts and
in what it leaves. No element that is read comes upon a row that is no distribution. -/
theorem codable_after (events : List Event) :
    (∀ slot tables, (after events).slots.get? slot = some tables →
        tables.Codable ∧ tables.Fresh) ∧
      (∀ tables ∈ (after events).left, tables.Codable ∧ tables.Fresh) ∧
      (∀ frame ∈ (after events).frames, frame.start.Codable ∧ frame.start.Fresh) ∧
      (∀ tile ∈ (after events).writers, tile.writer.tables.Codable) ∧
      (∀ outcome ∈ (after events).outcomes, outcome.tables.Codable) ∧
      ∀ reader ∈ (after events).readers, reader.tile.tables.Codable ∧
        ∀ {α : Type} (element : Element α),
          (reader.tile.run element.read).1 ≠ .error .corruptCdf := by
  have sound := sound_after events
  refine ⟨?_, ?_, ?_, ?_, sound.outcomes, ?_⟩
  · intro slot tables filled
    have ready := sound.slots slot tables filled
    exact ⟨ready.codable, ready.fresh⟩
  · intro tables member
    have ready := sound.left tables member
    exact ⟨ready.codable, ready.fresh⟩
  · intro frame member
    have ready := sound.frames frame member
    exact ⟨ready.codable, ready.fresh⟩
  · intro tile member
    exact (sound.writers tile member).tables
  · intro reader member
    have kept := sound.readers reader member
    refine ⟨kept.tables, ?_⟩
    intro α element
    exact (kept.run element.safe_read).blames_no_row

end Run

end TileCoder
