import TileCoder.Proofs.Range.Safety
import TileCoder.Proofs.Recoding.Elements

/-!
# Coding again what was read

Whatever bytes a tile is read from, the values that come of it can be written, by a writer that
starts from the same tables (`recoded_payload`). The bytes that are written may be others; but reading
them gives the same values again, and all three come to the same tables.

The writer is taken through the steps of the reader one by one: it is `Alongside` the reader, at a
place of its own but with the same tables and filters.
-/

namespace TileCoder

open TileCoder.Range

/-! ## Questions -/

/-- What a tile is asked for: an element, or the filter of a unit, which is coded from what the tile
remembers of the plane. -/
inductive Question : Type → Type 1 where
  | element {α : Type} (coded : Element α) : Question α
  | unit (choice : RestorationChoice) (plane : Plane) : Question RestorationFilter

namespace Question

variable {α : Type}

/-- The element that is asked for. -/
def asked (memories : PlaneMemories) : Question α → Element α
  | element coded => coded
  | unit choice plane => memories.unit choice plane

/-- What a caller sees to: filters in range, if they are not those of the tile, and strengths of at
most a byte. -/
def Recodable : Question α → Prop
  | element coded => coded.Recodable
  | unit .. => True

end Question

/-- A question about a value of some type. -/
structure Asked where
  {α : Type}
  question : Question α

/-- A question with its answer. -/
structure Answer where
  {α : Type}
  question : Question α
  value : α

/-- Reads the answers to some questions, if all can be read. -/
def TileReader.readAll (tile : TileReader) : List Asked → Except CodingError (List Answer × TileReader)
  | [] => .ok ([], tile)
  | first :: rest =>
      match tile.run (first.question.asked tile.memories).read with
      | (.error error, _) => .error error
      | (.ok value, next) =>
          match next.readAll rest with
          | .error error => .error error
          | .ok (answers, last) => .ok (⟨first.question, value⟩ :: answers, last)

/-- Writes some answers, if all are accepted. -/
def TileWriter.writeAll {σ : Type} [Output σ] (tile : TileWriter σ) :
    List Answer → Except CodingError (TileWriter σ)
  | [] => .ok tile
  | first :: rest =>
      match tile.run ((first.question.asked tile.memories).write first.value) with
      | (.error error, _) => .error error
      | (.ok (), next) => next.writeAll rest

/-! ## The steps of a reader -/

/-- A writer has the same tables and filters as a reader, wherever both are. -/
structure TileWriter.Alongside (writer : TileWriter Payload) (reader : TileReader) : Prop where
  tables_eq : writer.tables = reader.tables
  adapts_eq : writer.adapts = reader.adapts
  memories_eq : writer.memories = reader.memories
  codable : reader.tables.Codable

namespace TileWriter.Alongside

variable {writer : TileWriter Payload} {reader next : TileReader} {slot : Slot}

/-- A symbol that was read is one of its row, and a writer that codes it adapts in the same way. -/
theorem symbol (alongside : writer.Alongside reader) {value : Nat}
    (read : reader.symbol slot = (.ok value, next)) :
    value < slot.table.symbols ∧ (writer.symbol slot value).Alongside next := by
  obtain ⟨tables_eq, adapts_eq, memories_eq, codable⟩ := alongside
  have answered := reader.coder.answered_symbol (reader.tables.get slot)
  unfold TileReader.symbol at read
  split at read
  next error coder outcome => cases read
  next symbol coder outcome =>
    rw [outcome] at answered
    cases read
    have inside : value < (reader.tables.get slot).length - 1 := by
      rcases answered with ⟨_, ⟨⟩, below⟩ | corrupt | truncated
      · exact below
      · cases corrupt
      · cases truncated
    have arity : (reader.tables.get slot).arity = slot.table.symbols := (codable slot).arity_eq
    refine ⟨by rwa [← arity], ?_, ?_, ?_, ?_⟩
    · rw [tables_symbol, adapts_eq, tables_eq]
    · rw [← adapts_eq]
      unfold TileWriter.symbol
      split <;> rfl
    · rw [memories_symbol, memories_eq]
    · dsimp only
      split
      · exact codable.update slot value
      · exact codable

/-- **What a reader comes through, a writer beside it can take as well.** -/
theorem run {α : Type} {read : Parse α} {value : α} (alongside : writer.Alongside reader)
    (ran : reader.run read = (.ok value, next)) :
    ∃ steps, read.Takes steps value ∧ (steps.foldl TileWriter.step writer).Alongside next := by
  induction read generalizing writer reader with
  | done result =>
      cases ran
      exact ⟨[], .done value, alongside⟩
  | fail error => cases ran
  | symbol slot more ih =>
      rw [TileReader.run] at ran
      split at ran
      next error moved outcome => cases ran
      next symbol moved outcome =>
        obtain ⟨inside, still⟩ := alongside.symbol outcome
        obtain ⟨steps, takes, last⟩ := ih symbol still ran
        exact ⟨.symbol slot symbol :: steps, .symbol inside takes, last⟩
  | gathered slot symbols more ih =>
      rw [TileReader.run] at ran
      split at ran
      next error moved outcome => cases ran
      next symbol moved outcome =>
        -- only the coder has moved: the rows of such flags do not adapt
        obtain rfl : (reader.gathered slot symbols).2 = moved := congrArg Prod.snd outcome
        have still : (writer.step (.gathered slot symbols (symbol ≠ 0))).Alongside
            (reader.gathered slot symbols).2 :=
          ⟨alongside.tables_eq, alongside.adapts_eq, alongside.memories_eq, alongside.codable⟩
        obtain ⟨steps, takes, last⟩ := ih _ still ran
        exact ⟨_, .gathered takes, last⟩
  | bit more ih =>
      rw [TileReader.run] at ran
      split at ran
      next error moved outcome => cases ran
      next bit moved outcome =>
        obtain rfl : reader.bit.2 = moved := congrArg Prod.snd outcome
        have still : (writer.step (.bit bit)).Alongside reader.bit.2 :=
          ⟨alongside.tables_eq, alongside.adapts_eq, alongside.memories_eq, alongside.codable⟩
        obtain ⟨steps, takes, last⟩ := ih _ still ran
        exact ⟨_, .bit takes, last⟩
  | remember plane memory more ih =>
      have memories_eq : writer.memories.set plane memory = reader.memories.set plane memory := by
        rw [alongside.memories_eq]
      have still : (writer.step (.remember plane memory)).Alongside
          { reader with memories := reader.memories.set plane memory } :=
        ⟨alongside.tables_eq, alongside.adapts_eq, memories_eq, alongside.codable⟩
      obtain ⟨steps, takes, last⟩ := ih still ran
      exact ⟨_, .remember takes, last⟩

end TileWriter.Alongside

/-! ## Questions one after another -/

namespace TileWriter.Sound

variable {writer : TileWriter Payload} {reader : TileReader}

theorem recodable_asked {α : Type} (sound : writer.Sound) {question : Question α}
    (recodable : question.Recodable) : (question.asked writer.memories).Recodable := by
  cases question with
  | element coded => exact recodable
  | unit choice plane => exact sound.memories plane

/-- An answer that was read beside a writer is accepted by the writer; it conveys the answer, and is
beside the reader again. -/
theorem recodes {α : Type} (sound : writer.Sound) (alongside : writer.Alongside reader)
    {question : Question α} (recodable : question.Recodable) {value : α} {next : TileReader}
    (ran : reader.run (question.asked reader.memories).read = (.ok value, next)) :
    ∃ written, writer.run ((question.asked writer.memories).write value) = (.ok (), written) ∧
      written.Alongside next ∧
      writer.Conveys written
        (fun reader => reader.run (question.asked reader.memories).read) value := by
  rw [← alongside.memories_eq] at ran
  obtain ⟨steps, takes, beside⟩ := alongside.run ran
  have asked_recodable := sound.recodable_asked recodable
  obtain ⟨accepted, items_eq⟩ := Element.accepted_of_takes asked_recodable takes
  have conveys := sound.conveys_steps (Element.follows_of_takes asked_recodable takes)
  refine ⟨_, ?_, beside, conveys.sound, conveys.selected, ?_⟩
  · rw [TileWriter.run, accepted, items_eq]
  · intro payload again sync selected
    rw [sync.memories_eq]
    exact conveys.reads sync selected

/-- The same of answers one after another. -/
theorem recodes_all (sound : writer.Sound) (alongside : writer.Alongside reader)
    {asked : List Asked} (recodable : ∀ one ∈ asked, one.question.Recodable)
    {answers : List Answer} {last : TileReader} (ran : reader.readAll asked = .ok (answers, last)) :
    ∃ written, writer.writeAll answers = .ok written ∧ written.Alongside last ∧ written.Sound ∧
      ∀ {payload : List UInt8}, written.coder.interval.Selected payload →
        writer.coder.interval.Selected payload ∧
          ∀ {again : TileReader}, InSync writer payload again →
            ∃ reread, again.readAll asked = .ok (answers, reread) ∧
              InSync written payload reread := by
  induction asked generalizing writer reader answers with
  | nil =>
      cases ran
      exact ⟨writer, rfl, alongside, sound, fun selected =>
        ⟨selected, fun sync => ⟨_, rfl, sync⟩⟩⟩
  | cons first rest ih =>
      obtain ⟨here, later⟩ := List.forall_mem_cons.mp recodable
      rw [TileReader.readAll] at ran
      split at ran
      next error moved outcome => cases ran
      next value next outcome =>
        split at ran
        next error remaining => cases ran
        next others last remaining =>
          cases ran
          obtain ⟨written, wrote, beside, conveys⟩ := sound.recodes alongside here outcome
          obtain ⟨final, wrote_rest, last_beside, final_sound, reread_rest⟩ :=
            ih conveys.sound beside later remaining
          refine ⟨final, ?_, last_beside, final_sound, ?_⟩
          · rw [TileWriter.writeAll, wrote]
            exact wrote_rest
          · intro payload selected
            obtain ⟨reached, rest_again⟩ := reread_rest selected
            refine ⟨conveys.selected reached, ?_⟩
            intro again sync
            obtain ⟨moved, reads, moved_sync⟩ := conveys.reads sync reached
            obtain ⟨reread, reads_rest, final_sync⟩ := rest_again moved_sync
            refine ⟨reread, ?_, final_sync⟩
            rw [TileReader.readAll, reads]
            dsimp only
            rw [reads_rest]

end TileWriter.Sound

/-- **What was read can be coded again.** From whatever payload some questions were answered, a
writer with the same tables at the start accepts all answers and comes to the same tables and
filters; and its payload is read as the same answers. -/
theorem recoded_payload (tables : Tables) (codable : tables.Codable) (adapts : Bool)
    (payload : List UInt8) (asked : List Asked)
    (recodable : ∀ one ∈ asked, one.question.Recodable) (answers : List Answer) (last : TileReader)
    (ran : (TileReader.new payload tables adapts).readAll asked = .ok (answers, last)) :
    ∃ written, (TileWriter.new tables adapts : TileWriter Payload).writeAll answers = .ok written ∧
      written.tables = last.tables ∧ written.memories = last.memories ∧
      ∃ again, (TileReader.new written.coder.finish tables adapts).readAll asked =
          .ok (answers, again) ∧
        again.tables = last.tables := by
  have sound : (TileWriter.new tables adapts : TileWriter Payload).Sound :=
    TileWriter.sound_new codable adapts
  have alongside : (TileWriter.new tables adapts : TileWriter Payload).Alongside
      (.new payload tables adapts) := ⟨rfl, rfl, rfl, codable⟩
  obtain ⟨written, wrote, beside, written_sound, reread⟩ :=
    sound.recodes_all alongside recodable ran
  obtain ⟨again, reads, sync⟩ :=
    (reread written_sound.coder.selected_finish).2 (InSync.new codable _ adapts)
  exact ⟨written, wrote, beside.tables_eq, beside.memories_eq, again, reads,
    sync.tables_eq.trans beside.tables_eq⟩

/-- Bytes that nobody wrote are read as a vector, a partition at the edge of the frame, a segment, a
filter, a change of the quantizer and a map of colours. -/
theorem recoded_payload_mixed :
    let payload : List UInt8 :=
      [0x9c, 0x41, 0x07, 0xe3, 0x5a, 0x88, 0x10, 0xff, 0x3c, 0x22, 0x91]
    let asked : List Asked :=
      [⟨.element (.motionVector ⟨8, -16⟩ .quarter)⟩,
        ⟨.element (.partition ⟨0, 0, .b64x64, false, true⟩)⟩,
        ⟨.element (.segment ⟨3, 1, 5⟩)⟩,
        ⟨.unit .switchable .luma⟩,
        ⟨.element .quantizerDelta⟩,
        ⟨.element (.colorMap ⟨true, 3, 2, 2⟩ 6)⟩]
    (∀ one ∈ asked, one.question.Recodable) ∧
      ∃ answers last, (TileReader.new payload .initial true).readAll asked = .ok (answers, last) ∧
        ∃ written, (TileWriter.new .initial true : TileWriter Payload).writeAll answers =
            .ok written ∧
          written.tables = last.tables ∧ written.memories = last.memories ∧
          ∃ again, (TileReader.new written.coder.finish .initial true).readAll asked =
              .ok (answers, again) ∧
            again.tables = last.tables := by
  intro payload asked
  have recodable : ∀ one ∈ asked, one.question.Recodable := by
    simp [asked, Question.Recodable, Element.Recodable]
  have answered : ((TileReader.new payload .initial true).readAll asked).isOk = true := by
    decide +kernel
  refine ⟨recodable, ?_⟩
  cases ran : (TileReader.new payload .initial true).readAll asked with
  | error error =>
      rw [ran] at answered
      cases answered
  | ok read =>
      obtain ⟨answers, last⟩ := read
      exact ⟨answers, last, rfl, recoded_payload .initial Tables.codable_initial true payload asked
        recodable answers last ran⟩

end TileCoder
