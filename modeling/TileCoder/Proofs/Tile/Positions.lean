import TileCoder.Proofs.Range.Outputs
import TileCoder.Proofs.Tile.Tokens

/-!
# One position

A caller that weighs what it could code asks a recorder or a counter for the position, and a reader
has one of its own. Each makes it up from other fields, but it is always the position of the writer
of the payload (`samePositions_payload`): that of the reader too where all bytes are loaded, as what
the count then jumps by is made up for.
-/

namespace TileCoder

open TileCoder.Range

/-- Three writers and a reader report the same position, in bits and in eighths of them. -/
structure AtOnePosition (writer : Session (TileWriter Payload))
    (recorder : Session (TileWriter Recording)) (counter : Session (TileWriter BitCount))
    (reader : Session TileReader) : Prop where
  recorder_eq : recorder.tile.coder.position = writer.tile.coder.position
  counter_eq : counter.tile.coder.position = writer.tile.coder.position
  reader_eq : reader.tile.coder.position = writer.tile.coder.position

/-- While some entries are coded into each of three writers and read by a reader, all report the
same position, before the first entry and after every one. -/
def SamePositions : List Entry → Session (TileWriter Payload) → Session (TileWriter Recording) →
    Session (TileWriter BitCount) → Session TileReader → Prop
  | [], writer, recorder, counter, reader => AtOnePosition writer recorder counter reader
  | entry :: rest, writer, recorder, counter, reader =>
      AtOnePosition writer recorder counter reader ∧
        SamePositions rest (entry.write writer) (entry.write recorder) (entry.write counter)
          (entry.piece.get reader).2

/-- A reader beside a writer is at the writer's position. -/
theorem Range.Paired.position_eq {writer : Writer Payload} {payload : List UInt8} {reader : Reader}
    (paired : Paired writer payload reader) : reader.position = writer.position := by
  have bits : reader.bits = writer.bits := paired.tracks.bits_eq.trans paired.sound.bits_eq.symm
  have range : reader.range = writer.range := paired.tracks.range_eq
  rw [Reader.position, Writer.position, Reader.tellEighths, Writer.tellEighths, Reader.tell,
    Writer.tell, bits, range]

section Positions

variable {writer : Session (TileWriter Payload)} {recorder : Writer Recording}
  {counter : Writer BitCount} {payload : List UInt8} {reader : Session TileReader}

theorem atOnePosition (recorder_level : writer.tile.coder.Level recorder)
    (counter_level : writer.tile.coder.Level counter) (inStep : writer.InStep payload reader) :
    AtOnePosition writer (writer.withCoder recorder) (writer.withCoder counter) reader :=
  ⟨recorder_level.position_eq, counter_level.position_eq, inStep.tiles.coders.position_eq⟩

theorem samePositions {entries : List Entry} (recorder_level : writer.tile.coder.Level recorder)
    (counter_level : writer.tile.coder.Level counter) (inStep : writer.InStep payload reader)
    (admits : ∀ entry ∈ entries, entry.piece.Admits writer.rows entry.value)
    (selected : (entries.foldl Entry.write writer).tile.coder.interval.Selected payload) :
    SamePositions entries writer (writer.withCoder recorder) (writer.withCoder counter) reader := by
  induction entries generalizing writer recorder counter reader with
  | nil => exact atOnePosition recorder_level counter_level inStep
  | cons entry rest ih =>
      obtain ⟨here, later⟩ := List.forall_mem_cons.mp admits
      have still := Entry.admits_write entry later
      have conveys := inStep.ready.conveys_piece here
      obtain ⟨_, -, -, next⟩ := conveys.reads inStep (conveys.ready.selected_of_run still selected)
      -- all writers are handed the same tokens
      have level {τ : Type} [Output τ] [LawfulOutput τ] {coder : Writer τ}
          (level : writer.tile.coder.Level coder) :
          (entry.write writer).tile.coder.Level
            ((entry.tokens writer).foldl Writer.put coder) := by
        rw [Entry.coder_write]
        exact level.foldl_put _
      refine ⟨atOnePosition recorder_level counter_level inStep, ?_⟩
      rw [Entry.write_withCoder, Entry.write_withCoder]
      exact ih (level recorder_level) (level counter_level) next still selected

end Positions

/-- **One position on all coders.** -/
theorem samePositions_payload (rows : List Cdf) (tables : Tables) (adapts : Bool)
    (entries : List Entry) (codable : tables.Codable)
    (usable : ∀ cdf ∈ rows, cdf.Codable ∧ cdf.arity ≤ Cdf.maxSymbols)
    (admits : ∀ entry ∈ entries, entry.piece.Admits rows entry.value) :
    let writer : Session (TileWriter Payload) := ⟨rows, .new tables adapts⟩
    let payload := (entries.foldl Entry.write writer).tile.coder.finish
    SamePositions entries writer ⟨rows, .new tables adapts⟩ ⟨rows, .new tables adapts⟩
      ⟨rows, .new payload tables adapts⟩ := by
  intro writer payload
  have start := Session.inStep_new (usableRows_of_forall usable) codable payload adapts
  have last := start.ready.run admits
  exact samePositions Writer.level_new Writer.level_new start admits last.tile.coder.selected_finish

/-- An unlikely flag, a whole word, a likely symbol of a row that adapts, and an element. -/
theorem samePositions_payload_word :
    let rows : List Cdf := [[20000, 9000, 0, 0]]
    let entries : List Entry :=
      [⟨.primitive (.flag 1), true⟩, ⟨.primitive (.number (.literal 32)), 4294967295⟩,
        ⟨.owned 0, 0⟩, ⟨.element .quantizerDelta, -100⟩,
        ⟨.primitive (.adapting [32767, 0, 32]), 1⟩]
    let writer : Session (TileWriter Payload) := ⟨rows, .new .initial true⟩
    let payload := (entries.foldl Entry.write writer).tile.coder.finish
    Tables.initial.Codable ∧
      (∀ cdf ∈ rows, Cdf.Codable cdf ∧ Cdf.arity cdf ≤ Cdf.maxSymbols) ∧
      (∀ entry ∈ entries, entry.piece.Admits rows entry.value) ∧
      SamePositions entries writer ⟨rows, .new .initial true⟩ ⟨rows, .new .initial true⟩
        ⟨rows, .new payload .initial true⟩ := by
  intro rows entries writer payload
  have usable : ∀ cdf ∈ rows, Cdf.Codable cdf ∧ Cdf.arity cdf ≤ Cdf.maxSymbols := by decide
  have admits : ∀ entry ∈ entries, entry.piece.Admits rows entry.value := by
    simp only [entries, List.forall_mem_cons]
    have narrow : Cdf.arity [32767, 0, 32] ≤ Cdf.maxSymbols := by decide
    exact ⟨⟨rfl, trivial⟩, ⟨rfl, trivial⟩, ⟨by decide, by decide⟩, ⟨rfl, trivial⟩, ⟨rfl, narrow⟩,
      List.forall_mem_nil _⟩
  exact ⟨Tables.codable_initial, usable, admits,
    samePositions_payload rows .initial true entries Tables.codable_initial usable admits⟩

end TileCoder
