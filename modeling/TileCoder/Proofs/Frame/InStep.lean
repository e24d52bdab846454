import TileCoder.Proofs.Frame.Runs
import TileCoder.Proofs.Tile.Pieces

/-!
# Writers and readers of frames stay in step

Two sides that start with the same slots go through the same frames: one writes the tiles and the
other reads their payloads. `FramesInStep` says what both find on the way: the same refusals, every
value, the same tables after every entry, the same outcomes of tiles, the same tables left by each
frame, and so the same slots for the next one. It holds of all frames, if the rows that are saved at
the start can be coded with (`framesInStep_of_codable`); rows that cannot be may be read as a symbol
that was not written (`not_framesInStep_risingSlots`).
-/

namespace TileCoder

open TileCoder.Range

/-! ## Entries -/

namespace Piece

variable {σ : Type} [Output σ] {α : Type}

/-- Codes a value in a tile of a frame, once it is checked. -/
def put (session : Session (FrameTile σ)) :
    Piece α → α → Except CodingError Unit × Session (FrameTile σ)
  | element coded, value =>
      let (result, writer) := session.tile.writer.run (coded.write value)
      (result, { session with tile := { session.tile with writer } })
  | filter choice plane, value =>
      let coded := session.tile.writer.memories.unit choice plane
      let (result, writer) := session.tile.writer.run (coded.write value)
      (result, { session with tile := { session.tile with writer } })
  | primitive coded, value =>
      let (result, tile) := session.tile.put coded value
      (result, { session with tile })
  | owned row, value =>
      let (cdf, result, tile) := session.tile.putAdapting (session.rows.getD row []) value
      (result, ⟨session.rows.set row cdf, tile⟩)

end Piece

namespace Entry

/-- Codes the value of an entry, once it is checked. -/
def put (session : Session (FrameTile Payload)) (entry : Entry) :
    Except CodingError Unit × Session (FrameTile Payload) :=
  entry.piece.put session entry.value

/-- What is known of a value that was read: it is the one that was written. -/
def IsReadAs (entry : Entry) (read : Except CodingError entry.α) : Prop :=
  ∃ value, read = .ok value ∧ entry.piece.SameValue entry.value value

end Entry

/-- Every entry is taken without an error and read back, and both sides have the same rows after
it. -/
def EntriesInStep : List Entry → Session (FrameTile Payload) → Session TileReader → Prop
  | [], _, _ => True
  | entry :: rest, writer, reader =>
      (entry.put writer).1 = .ok () ∧
        entry.IsReadAs (entry.piece.get reader).1 ∧
          (entry.piece.get reader).2.rows = (entry.put writer).2.rows ∧
            (entry.piece.get reader).2.tile.tables = (entry.put writer).2.tile.writer.tables ∧
              EntriesInStep rest (entry.put writer).2 (entry.piece.get reader).2

/-! ## Tiles and frames -/

/-- What is coded in a tile: its number, the rows that the caller brings, and the entries. -/
structure TileScript where
  id : Nat
  rows : List Cdf
  entries : List Entry

namespace TileScript

/-- The tile before anything is written. -/
def startWriting (script : TileScript) (frame : Frame) : Session (FrameTile Payload) :=
  ⟨script.rows, frame.writeTile script.id⟩

/-- The tile after all that is written. -/
def written (script : TileScript) (frame : Frame) : Session (FrameTile Payload) :=
  script.entries.foldl (fun session entry => (entry.put session).2) (script.startWriting frame)

/-- The tile before anything is read. -/
def startReading (script : TileScript) (frame : Frame) (payload : List UInt8) :
    Session TileReader :=
  ⟨script.rows, frame.readTile payload⟩

/-- What a tile leaves that is read. -/
def outcomeRead (script : TileScript) (frame : Frame) (payload : List UInt8) : TileOutcome :=
  let last := script.entries.foldl (fun session entry => (entry.piece.get session).2)
    (script.startReading frame payload)
  ⟨script.id, last.tile.tables⟩

/-- The tile is written to a payload, from which it is read back, and both sides leave the same
outcome. -/
structure InStep (script : TileScript) (writing reading : Frame) (payload : List UInt8)
    (outcome : TileOutcome) : Prop where
  finish_eq : (script.written writing).tile.finish = .ok (payload, outcome)
  entries : EntriesInStep script.entries (script.startWriting writing)
    (script.startReading reading payload)
  outcome_eq : script.outcomeRead reading payload = outcome

/-- What may be coded in a tile: entries that admit their values, with rows that can be coded
with. -/
structure Admitted (script : TileScript) : Prop where
  rows : ∀ cdf ∈ script.rows, cdf.Codable ∧ cdf.arity ≤ Cdf.maxSymbols
  entries : ∀ entry ∈ script.entries, entry.piece.Admits script.rows entry.value

end TileScript

/-- A frame: its fields, its tiles, and which of them is the chosen one. -/
structure FrameScript where
  params : FrameParams
  tiles : List TileScript
  chosen : Fin tiles.length
  chosen_id : tiles[chosen].id = params.chosenTile

/-- Both sides begin each frame from the same slots, with the same success or the same error; they
code its tiles in step and end it with the same tables left. -/
def FramesInStep : List FrameScript → (writer reader : ReferenceSlots) → Prop
  | [], writer, reader => reader = writer
  | script :: rest, writer, reader =>
      reader = writer ∧
        match Frame.begin script.params writer, Frame.begin script.params reader with
        | .ok writing, .ok reading =>
            reading.start = writing.start ∧
              (∀ tile ∈ script.tiles, ∃ payload outcome,
                tile.InStep writing reading payload outcome) ∧
              ∃ payload outcome left nextWriter nextReader,
                script.tiles[script.chosen].InStep writing reading payload outcome ∧
                  writing.finish outcome writer = .ok (left, nextWriter) ∧
                  reading.finish (script.tiles[script.chosen].outcomeRead reading payload) reader =
                    .ok (left, nextReader) ∧
                  FramesInStep rest nextWriter nextReader
        | .error refused, .error error => error = refused ∧ FramesInStep rest writer reader
        | _, _ => False

/-! ## Checked writing -/

namespace Session

variable {σ : Type}

/-- The writer in the tile of a frame. -/
def writer (session : Session (FrameTile σ)) : Session (TileWriter σ) :=
  ⟨session.rows, session.tile.writer⟩

/-- The tile of a frame goes on with a writer. -/
def goOn (session : Session (FrameTile σ)) (writer : Session (TileWriter σ)) :
    Session (FrameTile σ) :=
  ⟨writer.rows, { session.tile with writer := writer.tile }⟩

end Session

section Put

variable {session : Session (FrameTile Payload)}

theorem FrameTile.charge_eq {tile : FrameTile Payload} (unlimited : tile.budget = none)
    (writer : TileWriter Payload) : tile.charge writer = (.ok (), { tile with writer }) := by
  rw [FrameTile.charge, FrameTile.checkBudget]
  dsimp only
  rw [unlimited]

/-- A tile without a limit takes every value that passes the check of its primitive. -/
theorem FrameTile.put_of_check {tile : FrameTile Payload} (unlimited : tile.budget = none)
    {α : Type} {primitive : Primitive α} {value : α} (checked : primitive.check value = .ok ()) :
    tile.put primitive value =
      (.ok (), { tile with writer := tile.writer.put primitive value }) := by
  rw [FrameTile.put, checked]
  exact FrameTile.charge_eq unlimited _

theorem FrameTile.putAdapting_of_check {tile : FrameTile Payload} (unlimited : tile.budget = none)
    {cdf : Cdf} {value : Nat} (checked : (Primitive.adapting cdf).check value = .ok ()) :
    tile.putAdapting cdf value = (cdf.adapt tile.writer.adapts value, .ok (),
      { tile with writer := tile.writer.put (.adapting cdf) value }) := by
  rw [FrameTile.putAdapting, checked]
  exact congrArg (Prod.mk _) (FrameTile.charge_eq unlimited _)

/-- A value that the piece admits is taken without an error, if the payload has no limit. -/
theorem Piece.put_eq (unlimited : session.tile.budget = none) (usable : UsableRows session.rows)
    {α : Type} {piece : Piece α} {value : α} (admits : piece.Admits session.rows value) :
    piece.put session value = (.ok (), session.goOn (piece.write session.writer value)) := by
  cases piece with
  | element coded =>
      rw [put, TileWriter.run, admits.1]
      rfl
  | filter choice plane =>
      rw [put, TileWriter.run, PlaneMemories.accepted_unit _ admits.2]
      rfl
  | primitive coded =>
      rw [put, FrameTile.put_of_check unlimited admits.1]
      rfl
  | owned row =>
      have checked : (Primitive.adapting (session.rows.getD row [])).check value = .ok () := by
        rw [Primitive.check, Cdf.checkCodable_eq_ok.mpr (usable row admits.1).1]
        exact checkSymbol_eq_ok.mpr admits.2
      rw [put, FrameTile.putAdapting_of_check unlimited checked]
      rfl

/-- What may be coded next to each other is put one after another as it would be written. -/
theorem Session.foldl_put (unlimited : session.tile.budget = none)
    (ready : session.writer.Ready) {entries : List Entry}
    (admits : ∀ entry ∈ entries, entry.piece.Admits session.rows entry.value) :
    entries.foldl (fun session entry => (entry.put session).2) session =
      session.goOn (entries.foldl Entry.write session.writer) := by
  induction entries generalizing session with
  | nil => rfl
  | cons entry rest ih =>
      obtain ⟨here, later⟩ := List.forall_mem_cons.mp admits
      have taken : (entry.put session).2 = session.goOn (entry.write session.writer) :=
        congrArg Prod.snd (Piece.put_eq unlimited ready.rows here)
      have still : ∀ next ∈ rest, next.piece.Admits (entry.write session.writer).rows next.value :=
        Entry.admits_write entry later
      have unlimited : (session.goOn (entry.write session.writer)).tile.budget = none := unlimited
      rw [List.foldl_cons, List.foldl_cons, taken]
      exact ih unlimited (ready.conveys_piece here).ready still

theorem entriesInStep (unlimited : session.tile.budget = none) {payload : List UInt8}
    {reader : Session TileReader} (inStep : session.writer.InStep payload reader)
    {entries : List Entry} (admits : ∀ entry ∈ entries, entry.piece.Admits session.rows entry.value)
    (selected : (entries.foldl Entry.write session.writer).tile.coder.interval.Selected payload) :
    EntriesInStep entries session reader := by
  induction entries generalizing session reader with
  | nil => trivial
  | cons entry rest ih =>
      obtain ⟨here, later⟩ := List.forall_mem_cons.mp admits
      have still : ∀ next ∈ rest, next.piece.Admits (entry.write session.writer).rows next.value :=
        Entry.admits_write entry later
      have conveys := inStep.ready.conveys_piece here
      obtain ⟨value, read, same, next⟩ :=
        conveys.reads inStep (conveys.ready.selected_of_run still selected)
      have taken : entry.put session = (.ok (), session.goOn (entry.write session.writer)) :=
        Piece.put_eq unlimited inStep.usable here
      have unlimited : (session.goOn (entry.write session.writer)).tile.budget = none := unlimited
      rw [EntriesInStep, taken]
      exact ⟨rfl, ⟨value, read, same⟩, next.rows_eq, next.tiles.tables_eq,
        ih unlimited next still selected⟩

end Put

/-- Where both sides have the same tables after every entry, they have the same at the end. -/
theorem EntriesInStep.tables_eq {entries : List Entry} {writer : Session (FrameTile Payload)}
    {reader : Session TileReader} (inStep : EntriesInStep entries writer reader)
    (start : reader.tile.tables = writer.tile.writer.tables) :
    (entries.foldl (fun session entry => (entry.piece.get session).2) reader).tile.tables =
      (entries.foldl (fun session entry => (entry.put session).2) writer).tile.writer.tables := by
  induction entries generalizing writer reader with
  | nil => exact start
  | cons entry rest ih =>
      obtain ⟨-, -, -, tables, later⟩ := inStep
      exact ih later tables

theorem FrameTile.finish_eq {tile : FrameTile Payload} (unlimited : tile.budget = none) :
    tile.finish = .ok (tile.writer.coder.finish, ⟨tile.id, tile.writer.tables⟩) := by
  rw [FrameTile.finish, FrameTile.checkBudget, unlimited]
  rfl

/-! ## Tiles and frames in step -/

/-- A tile of a frame without a limit is coded in step, if the frame starts with rows that can be
coded with, and the tile leaves such rows. -/
theorem TileScript.Admitted.inStep {script : TileScript} (admitted : script.Admitted)
    {frame : Frame} (unlimited : frame.budget = none) (codable : frame.start.Codable) :
    ∃ payload outcome, script.InStep frame frame payload outcome ∧ outcome.id = script.id ∧
      outcome.tables.Codable := by
  have usable := usableRows_of_forall admitted.rows
  have ready : (script.startWriting frame).writer.Ready :=
    ⟨TileWriter.sound_new codable _, usable⟩
  have written : script.written frame = (script.startWriting frame).goOn
      (script.entries.foldl Entry.write (script.startWriting frame).writer) :=
    Session.foldl_put unlimited ready admitted.entries
  have last := ready.run admitted.entries
  let payload := (script.written frame).tile.writer.coder.finish
  have start : (script.startWriting frame).writer.InStep payload
      (script.startReading frame payload) :=
    Session.inStep_new usable codable payload _
  have selected : (script.entries.foldl Entry.write
      (script.startWriting frame).writer).tile.coder.interval.Selected payload := by
    show Interval.Selected _ (script.written frame).tile.writer.coder.finish
    rw [written]
    exact last.tile.coder.selected_finish
  have entries := entriesInStep unlimited start admitted.entries selected
  have id : (script.written frame).tile.id = script.id := by
    rw [written]
    rfl
  refine ⟨payload, _, ⟨FrameTile.finish_eq ?_, entries, ?_⟩, id, ?_⟩
  · rw [written]
    exact unlimited
  · rw [id]
    exact congrArg (TileOutcome.mk script.id) (entries.tables_eq rfl)
  · rw [written]
    exact last.tile.tables

theorem Frame.finish_eq {frame : Frame} {chosen : TileOutcome}
    (id_eq : chosen.id = frame.params.chosenTile) (slots : ReferenceSlots) :
    frame.finish chosen slots =
      .ok (frame.endTables chosen, slots.refresh frame.params.refresh (frame.endTables chosen)) := by
  rw [Frame.finish, if_neg (not_not_intro id_eq)]

/-- **Writer and reader stay in step across frames.** -/
theorem framesInStep_of_codable {slots : ReferenceSlots} (codable : slots.Codable)
    {scripts : List FrameScript}
    (admitted : ∀ script ∈ scripts, ∀ tile ∈ script.tiles, tile.Admitted) :
    FramesInStep scripts slots slots := by
  induction scripts generalizing slots with
  | nil => exact rfl
  | cons script rest ih =>
      obtain ⟨here, later⟩ := List.forall_mem_cons.mp admitted
      refine ⟨rfl, ?_⟩
      cases begun : Frame.begin script.params slots with
      | error refused => exact ⟨rfl, ih codable later⟩
      | ok frame =>
          obtain ⟨params, unlimited, -⟩ := Frame.begin_spec begun
          have start := (Frame.ready_begin codable begun).codable
          have tiles (tile : TileScript) (member : tile ∈ script.tiles) :=
            (here tile member).inStep unlimited start
          obtain ⟨payload, outcome, inStep, id, left⟩ :=
            tiles script.tiles[script.chosen] (List.getElem_mem _)
          have finish : frame.finish outcome slots = _ :=
            Frame.finish_eq (by rw [id, script.chosen_id, params]) slots
          let next := slots.refresh frame.params.refresh (frame.endTables outcome)
          refine ⟨rfl, ?_, payload, outcome, frame.endTables outcome, next, next, inStep, finish,
            ?_, ?_⟩
          · intro tile member
            obtain ⟨payload, outcome, inStep, -⟩ := tiles tile member
            exact ⟨payload, outcome, inStep⟩
          · rw [inStep.outcome_eq]
            exact finish
          · exact ih (codable.refresh (Frame.ready_endTables start left).codable _) later

/-- A key frame of two tiles, of which the second is the chosen one, and a frame that starts from
what it leaves and is itself without adaptation. -/
theorem framesInStep_inherited :
    let flat : WienerTaps := ⟨0, 0, 0⟩
    let scripts : List FrameScript :=
      [⟨{ FrameParams.keyFrame with chosenTile := 1 },
        [⟨0, [], [⟨.element (.motionVector ⟨8, -16⟩ .quarter), ⟨-50, 1000⟩⟩]⟩,
          ⟨1, [[20000, 9000, 0, 0]],
            [⟨.owned 0, 2⟩, ⟨.filter .switchable .blue, .wiener flat flat⟩,
              ⟨.primitive (.number (.subexp 30)), 4000000000⟩,
              ⟨.filter .switchable .blue, .selfGuided 3 (-96) 95⟩, ⟨.owned 0, 1⟩]⟩], 1, rfl⟩,
        ⟨⟨0, .replicate _ 5, 3, true, true, 0⟩,
          [⟨0, [], [⟨.element (.references ⟨⟨none, none⟩, .b16x16, true⟩), ⟨.last, .alternate⟩⟩,
            ⟨.primitive (.flag 1), true⟩]⟩], 0, rfl⟩]
    ReferenceSlots.empty.Codable ∧
      (∀ script ∈ scripts, ∀ tile ∈ script.tiles, tile.Admitted) ∧
      FramesInStep scripts .empty .empty := by
  intro flat scripts
  have codable : ReferenceSlots.empty.Codable := ReferenceSlots.ready_empty.codable
  have admitted : ∀ script ∈ scripts, ∀ tile ∈ script.tiles, tile.Admitted := by
    simp only [scripts, List.forall_mem_cons]
    have none {α : Type 1} {p : α → Prop} : ∀ a ∈ [], p a := List.forall_mem_nil p
    refine ⟨⟨⟨nofun, ?_⟩, ⟨by decide, ?_⟩, none⟩, ⟨⟨nofun, ?_⟩, none⟩, none⟩
    all_goals simp only [List.forall_mem_cons]
    · exact ⟨⟨rfl, trivial⟩, none⟩
    · exact ⟨⟨by decide, by decide⟩, ⟨by decide, by decide⟩, ⟨rfl, le_rfl, by decide⟩,
        ⟨by decide, by decide⟩, ⟨by decide, by decide⟩, none⟩
    · exact ⟨⟨rfl, (by decide : Reference.alternate ≠ .intra)⟩, ⟨rfl, trivial⟩, none⟩
  exact ⟨codable, admitted, framesInStep_of_codable codable admitted⟩

/-! ## Rows that cannot be coded with -/

/-- A row whose second value lies above the first: its middle symbol has a negative mass. -/
def risingRow : Cdf := [10000, 20000, 0, 0]

/-- Slots of which one is filled, with tables that have such a row. -/
def risingSlots : ReferenceSlots :=
  .refresh .empty 1 (Tables.initial.set (Inter.motionModeSlot .b4x4) risingRow)

/-- A frame of one tile, which codes a symbol of that row, and a bit. -/
def risingScript : FrameScript where
  params := ⟨0, .replicate _ 0, 1, false, false, 0⟩
  tiles := [⟨0, [], [⟨.element (.motionMode .b4x4 true), .warped⟩,
    ⟨.primitive (.number (.literal 1)), 0⟩]⟩]
  chosen := 0
  chosen_id := rfl

theorem begin_risingScript :
    Frame.begin risingScript.params risingSlots =
      .ok ⟨risingScript.params,
        (Tables.initial.set (Inter.motionModeSlot .b4x4) risingRow).resetCounts, none⟩ := by
  have valid : risingScript.params.check = .ok () := rfl
  have found : Frame.startTables risingScript.params risingSlots =
      .ok (Tables.initial.set (Inter.motionModeSlot .b4x4) risingRow) := by
    have slot : risingScript.params.primarySlot? = some 0 := rfl
    rw [Frame.startTables, slot]
    dsimp only
    rw [risingSlots, ReferenceSlots.get?_refresh _ _ _ (by decide)]
    rfl
  rw [Frame.begin, valid, found]
  rfl

theorem finish_rising :
    ((Writer.new.symbol risingRow 2).bit false : Writer Payload).finish = [160] := by decide

theorem TileReader.symbol_fst (tile : TileReader) (slot : Slot) :
    (tile.symbol slot).1 = (tile.coder.symbol (tile.tables.get slot)).1 := by
  unfold TileReader.symbol
  split <;> simp_all

section Rising

variable {frame : Frame} (start : frame.start.get (Inter.motionModeSlot .b4x4) = risingRow)

include start

/-- The symbol and the bit as they are coded. -/
theorem coder_written_rising :
    (risingScript.tiles[risingScript.chosen].written frame).tile.writer.coder =
      (Writer.new.symbol risingRow 2).bit false := by
  show ((TileWriter.new frame.start frame.params.adapts).symbol (Inter.motionModeSlot .b4x4)
    2).coder.bit false = _
  rw [TileWriter.coder_symbol]
  show (Writer.new.symbol (frame.start.get (Inter.motionModeSlot .b4x4)) 2).bit false = _
  rw [start]

/-- What a reader makes of it. -/
theorem read_rising :
    ((frame.readTile [160]).run (Element.motionMode .b4x4 true).read).1 = .ok .simple := by
  have point : ((Reader.ofBytes [160]).symbol risingRow).1 = .ok 0 := by decide
  have first : ((frame.readTile [160]).symbol (Inter.motionModeSlot .b4x4)).1 = .ok 0 := by
    rw [TileReader.symbol_fst]
    show ((Reader.ofBytes [160]).symbol (frame.start.get (Inter.motionModeSlot .b4x4))).1 = _
    rw [start, point]
  show (TileReader.run _ (Parse.symbol (Inter.motionModeSlot .b4x4) fun symbol =>
    Parse.ofOption MotionMode.all[symbol]?)).1 = _
  rw [TileReader.run]
  generalize (frame.readTile [160]).symbol (Inter.motionModeSlot .b4x4) = read at first ⊢
  obtain ⟨result, after⟩ := read
  obtain rfl : result = .ok 0 := first
  rfl

/-- A value that is taken is read as another one. -/
theorem not_inStep_rising {payload : List UInt8} {outcome : TileOutcome}
    (unlimited : frame.budget = none) :
    ¬risingScript.tiles[risingScript.chosen].InStep frame frame payload outcome := by
  intro tile
  have finished := tile.finish_eq
  rw [FrameTile.finish_eq unlimited] at finished
  have payload_eq : payload = [160] := by
    rw [← finish_rising, ← coder_written_rising start]
    exact (Prod.mk.inj (Except.ok.inj finished)).1.symm
  obtain ⟨-, ⟨value, read, same⟩, -⟩ := tile.entries
  rw [payload_eq] at read
  have different := read.symm.trans (read_rising start)
  rw [same] at different
  cases different

end Rising

/-- **Frames do not stay in step whatever rows are saved.** From equal slots with a row that rises,
a value that the writer takes is read as another one. -/
theorem not_framesInStep_risingSlots :
    (∀ tile ∈ risingScript.tiles, tile.Admitted) ∧
      ¬FramesInStep [risingScript] risingSlots risingSlots := by
  refine ⟨?_, ?_⟩
  · simp only [risingScript, List.forall_mem_singleton]
    exact ⟨nofun, List.forall_mem_cons.mpr
      ⟨⟨rfl, trivial⟩, List.forall_mem_singleton.mpr ⟨rfl, trivial⟩⟩⟩
  · rintro ⟨-, inStep⟩
    rw [begin_risingScript] at inStep
    obtain ⟨-, -, payload, outcome, -, -, -, tile, -⟩ := inStep
    refine not_inStep_rising ?_ rfl tile
    rw [Tables.get_resetCounts, Tables.get_set_self]
    rfl

end TileCoder
