import TileCoder.Proofs.Element.Follows
import TileCoder.Proofs.Range.Paired
import TileCoder.Proofs.Table.Codable
import TileCoder.Tile.Reader

/-!
# A reader in step with a writer

`InSync writer payload reader` says that a writer of a tile and a reader of the payload are at the
same place: the same tables, the same filters, and a coder that tracks the writer's. Whatever steps
the writer takes, a reader that asks for these steps gets the values written, as long as the payload
selects the interval that the writer comes to, and both are in step afterwards (`InSync.run`).

A payload that selects the last interval of a run selects all intervals before
(`TileWriter.Sound.selected_of_run`), so it is enough that it is the payload of the whole.
-/

namespace TileCoder

open TileCoder.Range

/-! ## Steps -/

/-- What a tile can code, and a filter that the next one can be coded from. -/
def Step.Fits : Step → Prop
  | .symbol slot value => value < slot.table.symbols
  | .gathered slot symbols _ => slot.table.Gathers symbols
  | .bit _ => True
  | .remember _ memory => memory.InRange

theorem Parse.Follows.fits {α : Type} {read : Parse α} {steps : List Step} {value : α}
    (follows : read.Follows steps value) : ∀ step ∈ steps, step.Fits := by
  induction follows with
  | done => simp
  | symbol inside _ ih => exact List.forall_mem_cons.mpr ⟨inside, ih⟩
  | gathered gathers _ ih => exact List.forall_mem_cons.mpr ⟨gathers, ih⟩
  | bit _ ih => exact List.forall_mem_cons.mpr ⟨trivial, ih⟩
  | remember inRange _ ih => exact List.forall_mem_cons.mpr ⟨inRange, ih⟩

theorem Slot.Holds.usable_gather {slot : Slot} {cdf : Cdf} (holds : slot.Holds cdf)
    {symbols : List Nat} (gathers : slot.table.Gathers symbols) : (cdf.gather symbols).Usable := by
  refine ⟨holds.codable.gather gathers.distinct ?_, ?_⟩
  · intro symbol member
    rw [holds.arity_eq]
    exact gathers.inside symbol member
  · simp [Cdf.arity, Cdf.gather, flagCdf, Cdf.maxSymbols]

/-- The next filter of every plane can be coded from the last one. -/
def PlaneMemories.InRange (memories : PlaneMemories) : Prop :=
  ∀ plane, (memories.get plane).InRange

namespace PlaneMemories

theorem inRange_initial : initial.InRange := by
  intro plane field
  rcases plane with _ | _ | _ <;> rcases field with (_ | _) | (_ | _) | (_ | _) | _ | _ <;> decide

theorem InRange.set {memories : PlaneMemories} (inRange : memories.InRange) {plane : Plane}
    {memory : RestorationMemory} (new_inRange : memory.InRange) :
    (memories.set plane memory).InRange := by
  intro other
  have luma := inRange .luma
  have blue := inRange .blue
  have red := inRange .red
  cases plane <;> cases other <;> assumption

end PlaneMemories

/-- What every tile that is written keeps. -/
structure TileWriter.Sound (tile : TileWriter Payload) : Prop where
  coder : tile.coder.Sound
  tables : tile.tables.Codable
  memories : tile.memories.InRange

namespace TileWriter

variable {tile : TileWriter Payload} {taken : Step} {steps : List Step} {payload : List UInt8}

theorem sound_new {tables : Tables} (codable : tables.Codable) (adapts : Bool) :
    (new tables adapts : TileWriter Payload).Sound :=
  ⟨Writer.sound_new, codable, PlaneMemories.inRange_initial⟩

@[simp] theorem coder_symbol {σ : Type} [Output σ] (tile : TileWriter σ) (slot : Slot)
    (value : Nat) :
    (tile.symbol slot value).coder = tile.coder.symbol (tile.tables.get slot) value := by
  unfold symbol
  split <;> rfl

theorem tables_symbol (tile : TileWriter Payload) (slot : Slot) (value : Nat) :
    (tile.symbol slot value).tables =
      if tile.adapts then tile.tables.update slot value else tile.tables := by
  unfold symbol
  split <;> rfl

@[simp] theorem memories_symbol (tile : TileWriter Payload) (slot : Slot) (value : Nat) :
    (tile.symbol slot value).memories = tile.memories := by
  unfold symbol
  split <;> rfl

theorem Sound.symbol (sound : tile.Sound) {slot : Slot} {value : Nat}
    (inside : value < slot.table.symbols) : (tile.symbol slot value).Sound where
  coder := by
    have holds := sound.tables slot
    rw [coder_symbol]
    exact sound.coder.symbol holds.usable.roomy (by rwa [holds.arity_eq])
  tables := by
    rw [tables_symbol]
    split
    · exact sound.tables.update slot value
    · exact sound.tables
  memories := by
    rw [memories_symbol]
    exact sound.memories

/-- A step that a tile can code keeps it sound. -/
theorem Sound.step (sound : tile.Sound) (fits : taken.Fits) : (tile.step taken).Sound := by
  cases taken with
  | symbol slot value => exact sound.symbol fits
  | gathered slot symbols flag =>
      have usable := (sound.tables slot).usable_gather fits
      have coder := sound.coder.symbol usable.roomy (toNat_lt_arity_flagCdf _ flag)
      exact ⟨coder, sound.tables, sound.memories⟩
  | bit bit =>
      have coder := sound.coder.symbol (coded_bit bit).1.roomy (coded_bit bit).2
      exact ⟨coder, sound.tables, sound.memories⟩
  | remember plane memory => exact ⟨sound.coder, sound.tables, sound.memories.set fits⟩

theorem Sound.selected_of_step (sound : tile.Sound) (fits : taken.Fits)
    (selected : (tile.step taken).coder.interval.Selected payload) :
    tile.coder.interval.Selected payload := by
  cases taken with
  | symbol slot value =>
      have holds := sound.tables slot
      have inside : value < (tile.tables.get slot).arity := by rwa [holds.arity_eq]
      rw [show tile.step (.symbol slot value) = tile.symbol slot value from rfl, coder_symbol]
        at selected
      exact sound.coder.selected_of_symbol holds.usable.roomy inside selected
  | gathered slot symbols flag =>
      have usable := (sound.tables slot).usable_gather fits
      exact sound.coder.selected_of_symbol usable.roomy (toNat_lt_arity_flagCdf _ flag) selected
  | bit bit => exact sound.coder.selected_of_symbol (coded_bit bit).1.roomy (coded_bit bit).2 selected
  | remember plane memory => exact selected

theorem Sound.run (sound : tile.Sound) (fits : ∀ step ∈ steps, step.Fits) :
    (steps.foldl TileWriter.step tile).Sound := by
  induction steps generalizing tile with
  | nil => exact sound
  | cons first rest ih =>
      obtain ⟨here, later⟩ := List.forall_mem_cons.mp fits
      exact ih (sound.step here) later

/-- A payload that selects the interval after some steps selects the one before them. -/
theorem Sound.selected_of_run (sound : tile.Sound) (fits : ∀ step ∈ steps, step.Fits)
    (selected : (steps.foldl TileWriter.step tile).coder.interval.Selected payload) :
    tile.coder.interval.Selected payload := by
  induction steps generalizing tile with
  | nil => exact selected
  | cons first rest ih =>
      obtain ⟨here, later⟩ := List.forall_mem_cons.mp fits
      exact sound.selected_of_step here (ih (sound.step here) later selected)

end TileWriter

/-! ## Writer and reader -/

/-- A writer of a tile and a reader of a payload are at the same place. -/
structure InSync (writer : TileWriter Payload) (payload : List UInt8) (reader : TileReader) :
    Prop where
  coders : Paired writer.coder payload reader.coder
  codable : writer.tables.Codable
  tables_eq : reader.tables = writer.tables
  adapts_eq : reader.adapts = writer.adapts
  memories_eq : reader.memories = writer.memories
  inRange : writer.memories.InRange

namespace InSync

variable {writer : TileWriter Payload} {payload : List UInt8} {reader : TileReader}

theorem new {tables : Tables} (codable : tables.Codable) (payload : List UInt8) (adapts : Bool) :
    InSync (.new tables adapts) payload (.new payload tables adapts) where
  coders := Paired.new payload
  codable := codable
  tables_eq := rfl
  adapts_eq := rfl
  memories_eq := rfl
  inRange := PlaneMemories.inRange_initial

theorem sound (sync : InSync writer payload reader) : writer.Sound :=
  ⟨sync.coders.sound, sync.codable, sync.inRange⟩

theorem symbol (sync : InSync writer payload reader) {slot : Slot} {value : Nat}
    (inside : value < slot.table.symbols)
    (selected : (writer.symbol slot value).coder.interval.Selected payload) :
    ∃ next, reader.symbol slot = (.ok value, next) ∧
      InSync (writer.symbol slot value) payload next := by
  have holds := sync.sound.tables slot
  rw [TileWriter.coder_symbol] at selected
  obtain ⟨coder, read, coders⟩ :=
    sync.coders.symbol holds.usable.roomy (by rwa [holds.arity_eq]) selected
  rw [TileReader.symbol, sync.tables_eq, read]
  have still := sync.sound.symbol inside
  refine ⟨_, rfl, ?_, still.tables, ?_, ?_, ?_, still.memories⟩
  · rw [TileWriter.coder_symbol]
    exact coders
  · rw [TileWriter.tables_symbol, sync.adapts_eq]
  · rw [sync.adapts_eq]
    unfold TileWriter.symbol
    split <;> rfl
  · rw [TileWriter.memories_symbol, sync.memories_eq]

theorem gathered (sync : InSync writer payload reader) {slot : Slot} {symbols : List Nat}
    {flag : Bool} (gathers : slot.table.Gathers symbols)
    (selected : (writer.step (.gathered slot symbols flag)).coder.interval.Selected payload) :
    ∃ next, reader.gathered slot symbols = (.ok flag.toNat, next) ∧
      InSync (writer.step (.gathered slot symbols flag)) payload next := by
  have usable := (sync.sound.tables slot).usable_gather gathers
  obtain ⟨coder, read, coders⟩ :=
    sync.coders.symbol usable.roomy (toNat_lt_arity_flagCdf _ flag) selected
  rw [TileReader.gathered, sync.tables_eq, read]
  exact ⟨_, rfl, coders, sync.codable, rfl, sync.adapts_eq, sync.memories_eq, sync.inRange⟩

theorem bit (sync : InSync writer payload reader) {bit : Bool}
    (selected : (writer.step (.bit bit)).coder.interval.Selected payload) :
    ∃ next, reader.bit = (.ok bit, next) ∧ InSync (writer.step (.bit bit)) payload next := by
  obtain ⟨coder, read, coders⟩ := sync.coders.bit selected
  rw [TileReader.bit, read]
  exact ⟨_, rfl, coders, sync.codable, sync.tables_eq, sync.adapts_eq, sync.memories_eq,
    sync.inRange⟩

/-- **A reader that follows a writer's steps reads what was written**, and is in step afterwards. -/
theorem run {α : Type} {read : Parse α} {steps : List Step} {value : α}
    (sync : InSync writer payload reader) (follows : read.Follows steps value)
    (selected : (steps.foldl TileWriter.step writer).coder.interval.Selected payload) :
    ∃ next, reader.run read = (.ok value, next) ∧
      InSync (steps.foldl TileWriter.step writer) payload next := by
  -- the payload selects the interval after the first step, as it selects the last one
  have before {taken : Step} {rest : List Step} {tile : TileWriter Payload} (sound : tile.Sound)
      (here : taken.Fits) (later : ∀ step ∈ rest, step.Fits)
      (selected : ((taken :: rest).foldl TileWriter.step tile).coder.interval.Selected payload) :
      (tile.step taken).coder.interval.Selected payload :=
    (sound.step here).selected_of_run later selected
  induction follows generalizing writer reader with
  | done value => exact ⟨reader, rfl, sync⟩
  | @symbol slot value _ _ _ inside tail ih =>
      have here : (Step.symbol slot value).Fits := inside
      obtain ⟨next, read, next_sync⟩ :=
        sync.symbol inside (before sync.sound here tail.fits selected)
      rw [TileReader.run, read]
      exact ih next_sync selected
  | @gathered slot symbols flag _ _ _ gathers tail ih =>
      have here : (Step.gathered slot symbols flag).Fits := gathers
      obtain ⟨next, read, next_sync⟩ :=
        sync.gathered gathers (before sync.sound here tail.fits selected)
      have same : decide (flag.toNat ≠ 0) = flag := by cases flag <;> rfl
      rw [TileReader.run, read]
      dsimp only
      rw [same]
      exact ih next_sync selected
  | @bit bit _ _ _ tail ih =>
      have here : (Step.bit bit).Fits := trivial
      obtain ⟨next, read, next_sync⟩ := sync.bit (before sync.sound here tail.fits selected)
      rw [TileReader.run, read]
      exact ih next_sync selected
  | @remember plane memory _ _ _ inRange tail ih =>
      have memories : reader.memories.set plane memory = writer.memories.set plane memory := by
        rw [sync.memories_eq]
      have next_sync : InSync (writer.step (.remember plane memory)) payload
          { reader with memories := reader.memories.set plane memory } :=
        ⟨sync.coders, sync.codable, sync.tables_eq, sync.adapts_eq, memories,
          sync.inRange.set inRange⟩
      exact ih next_sync selected

end InSync

/-- What is written in a fresh tile is read from its payload, and both sides come to the same
tables. -/
theorem TileReader.run_written {α β : Type} {tables : Tables} (codable : tables.Codable)
    (adapts : Bool) {plan : Plan β} {read : Parse α} {value : α}
    (follows : read.Follows plan.items value) :
    let written := (TileWriter.new tables adapts : TileWriter Payload).run plan
    let answer := (TileReader.new written.2.coder.finish tables adapts).run read
    answer.1 = .ok value ∧ answer.2.tables = written.2.tables := by
  intro written answer
  have start : (TileWriter.new tables adapts : TileWriter Payload).Sound :=
    TileWriter.sound_new codable adapts
  have selected := (start.run follows.fits).coder.selected_finish
  obtain ⟨next, runs, sync⟩ := (InSync.new codable _ adapts).run follows selected
  have answer_eq : answer = (.ok value, next) := runs
  rw [answer_eq]
  exact ⟨rfl, sync.tables_eq⟩

end TileCoder
