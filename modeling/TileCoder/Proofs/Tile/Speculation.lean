import TileCoder.Proofs.Range.Outputs
import TileCoder.Proofs.Table.Unwind
import TileCoder.Proofs.Tile.Tokens

/-!
# Speculative coding

A caller tries out what to code: it takes checkpoints of a tile, goes back to them, and settles on
what it has by a commit. A checkpoint is live until it is undone itself, as a later part of what is
taken back, or settled. Whatever is done, each live checkpoint leads back to just the coder and the
tables of its moment, and what was undone leaves no trace (`leavesNoTrace`). The tile at any moment
covers the tiles of all live checkpoints, and each of these covers the earlier ones
(`TileWriter.Covers`).
-/

namespace TileCoder

open TileCoder.Range

variable {σ : Type} [Output σ]

/-! ## Trials -/

/-- What a caller does who tries out what to code. -/
inductive Move where
  /-- Codes a value, whether it is accepted or not. -/
  | code (entry : Entry)
  | checkpoint
  /-- Goes back to a checkpoint, which is counted from the latest one that is live. -/
  | rollback (depth : Nat)
  | commit

/-- Keeps all that is coded, and forgets how to take it back. -/
def Session.commit (session : Session (TileWriter σ)) : Session (TileWriter σ) :=
  { session with tile := session.tile.commit }

/-- A checkpoint, and what the session was when it was taken. -/
structure Moment (σ : Type) where
  saved : TileWriter.Checkpoint
  session : Session (TileWriter σ)

/-- A session and its live checkpoints, the latest first. -/
structure Trial (σ : Type) where
  session : Session (TileWriter σ)
  live : List (Moment σ)

/-- The trial after a move. A rollback that asks for more checkpoints than are live does nothing.
The rows and the filters that are the caller's are put back by the caller. -/
def Trial.move (trial : Trial σ) : Move → Trial σ
  | .code entry => { trial with session := entry.write trial.session }
  | .checkpoint =>
      let (saved, tile) := trial.session.tile.checkpoint
      let session := { trial.session with tile }
      ⟨session, ⟨saved, session⟩ :: trial.live⟩
  | .rollback depth =>
      match trial.live[depth]? with
      | none => trial
      | some moment =>
          let tile := trial.session.tile.rollback moment.saved
          let memories := moment.session.tile.memories
          ⟨⟨moment.session.rows, { tile with memories }⟩, trial.live.drop depth⟩
  | .commit => ⟨trial.session.commit, []⟩

/-- The trial of a caller who starts from a session without live checkpoints. -/
def Session.tried (start : Session (TileWriter σ)) (moves : List Move) : Trial σ :=
  moves.foldl Trial.move ⟨start, []⟩

/-- The entries that are not undone, and those that were not at each live checkpoint. -/
structure Survivors where
  entries : List Entry
  live : List (List Entry)

def Survivors.move (kept : Survivors) : Move → Survivors
  | .code entry => { kept with entries := kept.entries ++ [entry] }
  | .checkpoint => { kept with live := kept.entries :: kept.live }
  | .rollback depth =>
      match kept.live[depth]? with
      | none => kept
      | some entries => ⟨entries, kept.live.drop depth⟩
  | .commit => { kept with live := [] }

/-- What is coded by moves once all that is undone is left out. -/
def survivors (moves : List Move) : List Entry := (moves.foldl Survivors.move ⟨[], []⟩).entries

example (first second third fourth : Entry) :
    survivors [.code first, .checkpoint, .code second, .checkpoint, .code third, .rollback 1,
      .code fourth, .rollback 0, .code fourth] = [first, fourth] := rfl

/-- Every live checkpoint leads back to the coder and the tables of its moment, and the session is
what it would have become by the surviving entries alone. -/
structure LeavesNoTrace (start : Session (TileWriter σ)) (moves : List Move) : Prop where
  coder_rollback : ∀ moment ∈ (start.tried moves).live,
    ((start.tried moves).session.tile.rollback moment.saved).coder = moment.session.tile.coder
  tables_rollback : ∀ moment ∈ (start.tried moves).live,
    ((start.tried moves).session.tile.rollback moment.saved).tables = moment.session.tile.tables
  coder_eq : (start.tried moves).session.tile.coder =
    ((survivors moves).foldl Entry.write start).tile.coder
  tables_eq : (start.tried moves).session.tile.tables =
    ((survivors moves).foldl Entry.write start).tile.tables
  rows_eq : (start.tried moves).session.rows = ((survivors moves).foldl Entry.write start).rows
  memories_eq : (start.tried moves).session.tile.memories =
    ((survivors moves).foldl Entry.write start).tile.memories

/-! ## What a tile can go back to -/

namespace TileWriter

variable {tile earlier : TileWriter σ}

/-- A tile has all that it needs to become an earlier one again. -/
structure Covers (tile earlier : TileWriter σ) : Prop where
  coder : tile.coder.Extends earlier.coder
  log : tile.log.LeadsBack tile.tables earlier.log earlier.tables
  adapts_eq : tile.adapts = earlier.adapts
  armed : tile.log.armed = true
  armed_earlier : earlier.log.armed = true

/-- A rollback restores all of a tile but the filters that it remembers. -/
theorem Covers.rollback_eq (covers : tile.Covers earlier) :
    tile.rollback earlier.checkpoint.1 = { earlier with memories := tile.memories } := by
  have log : tile.log.rollback earlier.log.mark tile.tables = (earlier.log, earlier.tables) := by
    rw [covers.log.rollback_eq, covers.armed, ← covers.armed_earlier]
  have coder := covers.coder.rollback_eq
  rw [rollback, checkpoint, log, coder, ← covers.adapts_eq]

/-- A tile that goes back, with the filters that are put back, is the earlier one. -/
theorem Covers.restore_eq (covers : tile.Covers earlier) :
    { tile.rollback earlier.checkpoint.1 with memories := earlier.memories } = earlier := by
  rw [covers.rollback_eq]

/-- A live checkpoint is left as it is by another one. -/
theorem Covers.checkpoint (covers : tile.Covers earlier) : tile.checkpoint.2.Covers earlier :=
  ⟨covers.coder, covers.log, covers.adapts_eq, rfl, covers.armed_earlier⟩

variable [LawfulOutput σ]

theorem covers_self (armed : tile.log.armed = true) : tile.Covers tile where
  coder := Writer.extends_self tile.coder
  log := UndoLog.leadsBack_self tile.log tile.tables
  adapts_eq := rfl
  armed := armed
  armed_earlier := armed

theorem Covers.putTokens (covers : tile.Covers earlier) (tokens : List Token) :
    { tile with coder := tokens.foldl Writer.put tile.coder }.Covers earlier :=
  ⟨covers.coder.foldl_put tokens, covers.log, covers.adapts_eq, covers.armed, covers.armed_earlier⟩

theorem Covers.symbol (covers : tile.Covers earlier) (slot : Slot) (value : Nat) :
    (tile.symbol slot value).Covers earlier := by
  have coder := covers.coder.foldl_put [.ofSymbol (tile.tables.get slot) value]
  unfold TileWriter.symbol
  dsimp only
  split
  · have armed : (tile.log.record slot (tile.tables.get slot)).armed = true := by
      rw [UndoLog.armed_record, covers.armed]
    exact ⟨coder, covers.log.record covers.armed slot _, covers.adapts_eq, armed,
      covers.armed_earlier⟩
  · exact ⟨coder, covers.log, covers.adapts_eq, covers.armed, covers.armed_earlier⟩

theorem Covers.steps (covers : tile.Covers earlier) (steps : List Step) :
    (steps.foldl step tile).Covers earlier := by
  induction steps generalizing tile with
  | nil => exact covers
  | cons taken rest ih =>
      apply ih
      cases taken with
      | symbol slot value => exact covers.symbol slot value
      | gathered slot symbols flag =>
          exact covers.putTokens [.ofSymbol ((tile.tables.get slot).gather symbols) flag.toNat]
      | bit bit => exact covers.putTokens [.ofBit bit]
      | remember plane memory =>
          exact ⟨covers.coder, covers.log, covers.adapts_eq, covers.armed, covers.armed_earlier⟩

theorem Covers.put {α : Type} (covers : tile.Covers earlier) (primitive : Primitive α) (value : α) :
    (tile.put primitive value).Covers earlier := by
  rw [put_eq]
  exact covers.putTokens _

end TileWriter

theorem TileWriter.Covers.write [LawfulOutput σ] {session : Session (TileWriter σ)}
    {earlier : TileWriter σ} (covers : session.tile.Covers earlier) (entry : Entry) :
    (entry.write session).tile.Covers earlier := by
  obtain ⟨piece, value⟩ := entry
  cases piece with
  | element coded => exact covers.steps (coded.write value).items
  | filter choice plane => exact covers.steps _
  | primitive coded => exact covers.put coded value
  | owned row => exact covers.put (.adapting (session.rows.getD row [])) value

/-! ## What coding does not look at -/

namespace TileWriter

theorem commit_symbol (tile : TileWriter σ) (slot : Slot) (value : Nat) :
    (tile.symbol slot value).commit = (tile.commit.symbol slot value).commit := by
  show _ = (if tile.adapts = true then _ else _ : TileWriter σ).commit
  unfold symbol
  dsimp only
  split <;> rfl

theorem commit_steps (tile : TileWriter σ) (steps : List Step) :
    (steps.foldl step tile).commit = (steps.foldl step tile.commit).commit := by
  induction steps generalizing tile with
  | nil => rfl
  | cons taken rest ih =>
      rw [List.foldl_cons, List.foldl_cons, ih, ih (tile.commit.step taken)]
      congr 2
      cases taken with
      | symbol slot value => exact commit_symbol tile slot value
      | gathered | bit | remember => rfl

end TileWriter

/-- What is coded does not depend on the log. -/
theorem Entry.commit_write (session : Session (TileWriter σ)) (entry : Entry) :
    (entry.write session).commit = (entry.write session.commit).commit := by
  obtain ⟨piece, value⟩ := entry
  cases piece with
  | element coded =>
      exact congrArg (Session.mk session.rows) (TileWriter.commit_steps session.tile _)
  | filter choice plane =>
      exact congrArg (Session.mk session.rows) (TileWriter.commit_steps session.tile _)
  | primitive coded => cases coded <;> rfl
  | owned row => rfl

theorem Entry.commit_write_congr {first second : Session (TileWriter σ)}
    (same : first.commit = second.commit) (entry : Entry) :
    (entry.write first).commit = (entry.write second).commit := by
  rw [commit_write, same, ← commit_write]

/-! ## What a trial keeps -/

namespace Trial

variable {trial : Trial σ}

/-- The session covers the tiles of all live checkpoints, and each of these covers the earlier ones.
-/
structure Sound (trial : Trial σ) : Prop where
  covers : ∀ moment ∈ trial.live, trial.session.tile.Covers moment.session.tile
  nested : trial.live.Pairwise fun later earlier => later.session.tile.Covers earlier.session.tile
  saved_eq : ∀ moment ∈ trial.live, moment.saved = moment.session.tile.checkpoint.1

/-- To go back to a live checkpoint is to have the session of its moment. -/
theorem Sound.move_rollback (sound : trial.Sound) {depth : Nat} {moment : Moment σ}
    (found : trial.live[depth]? = some moment) :
    trial.move (.rollback depth) = ⟨moment.session, trial.live.drop depth⟩ := by
  have member := List.mem_of_getElem? found
  simp only [move, found, sound.saved_eq moment member,
    (sound.covers moment member).restore_eq]

theorem Sound.move [LawfulOutput σ] (sound : trial.Sound) (next : Move) :
    (trial.move next).Sound := by
  cases next with
  | code entry =>
      refine ⟨?_, sound.nested, sound.saved_eq⟩
      intro moment member
      exact (sound.covers moment member).write entry
  | checkpoint =>
      have here : trial.session.tile.checkpoint.2.Covers trial.session.tile.checkpoint.2 :=
        TileWriter.covers_self rfl
      have earlier : ∀ moment ∈ trial.live,
          trial.session.tile.checkpoint.2.Covers moment.session.tile := by
        intro moment member
        exact (sound.covers moment member).checkpoint
      exact ⟨List.forall_mem_cons.mpr ⟨here, earlier⟩,
        List.pairwise_cons.mpr ⟨earlier, sound.nested⟩,
        List.forall_mem_cons.mpr ⟨rfl, sound.saved_eq⟩⟩
  | rollback depth =>
      cases found : trial.live[depth]? with
      | none =>
          simp only [Trial.move, found]
          exact sound
      | some moment =>
          rw [sound.move_rollback found]
          have here := sound.covers moment (List.mem_of_getElem? found)
          have covers := forall_mem_drop_of_pairwise sound.nested found
            (TileWriter.covers_self here.armed_earlier)
          exact ⟨covers, sound.nested.drop, forall_mem_drop sound.saved_eq depth⟩
  | commit => exact ⟨List.forall_mem_nil _, .nil, List.forall_mem_nil _⟩

/-- But for the log, a trial is what the surviving entries make of the start, and so was the session
at each live checkpoint. -/
structure Agrees (start : Session (TileWriter σ)) (trial : Trial σ) (kept : Survivors) : Prop where
  session_eq : trial.session.commit = (kept.entries.foldl Entry.write start).commit
  live_eq : trial.live.map (·.session.commit) =
    kept.live.map fun entries => (entries.foldl Entry.write start).commit

variable {start : Session (TileWriter σ)} {kept : Survivors}

theorem Agrees.move (agrees : Agrees start trial kept) (sound : trial.Sound) (next : Move) :
    Agrees start (trial.move next) (kept.move next) := by
  obtain ⟨session_eq, live_eq⟩ := agrees
  cases next with
  | code entry =>
      refine ⟨?_, live_eq⟩
      show (entry.write trial.session).commit = ((kept.entries ++ [entry]).foldl _ start).commit
      rw [List.foldl_append]
      exact Entry.commit_write_congr session_eq entry
  | checkpoint => exact ⟨session_eq, congrArg₂ List.cons session_eq live_eq⟩
  | rollback depth =>
      have same := congrArg (·[depth]?) live_eq
      simp only [List.getElem?_map] at same
      cases found : trial.live[depth]? with
      | none =>
          rw [found] at same
          simp only [Trial.move, Survivors.move, found, Option.map_eq_none_iff.mp same.symm]
          exact ⟨session_eq, live_eq⟩
      | some moment =>
          rw [found] at same
          obtain ⟨entries, kept_found, entries_eq⟩ := Option.map_eq_some_iff.mp same.symm
          rw [sound.move_rollback found]
          simp only [Survivors.move, kept_found]
          refine ⟨entries_eq.symm, ?_⟩
          rw [List.map_drop, List.map_drop, live_eq]
  | commit => exact ⟨session_eq, rfl⟩

/-- Over a run, what a trial keeps is kept, and it agrees with what survives. -/
theorem sound_and_agrees_foldl [LawfulOutput σ] (sound : trial.Sound)
    (agrees : Agrees start trial kept) (moves : List Move) :
    (moves.foldl Trial.move trial).Sound ∧
      Agrees start (moves.foldl Trial.move trial) (moves.foldl Survivors.move kept) := by
  induction moves generalizing trial kept with
  | nil => exact ⟨sound, agrees⟩
  | cons next rest ih => exact ih (sound.move next) (agrees.move sound next)

end Trial

/-- Whatever the output is, if it can be cut back, speculation leaves no trace. -/
theorem leavesNoTrace_of_lawful [LawfulOutput σ] (start : Session (TileWriter σ))
    (moves : List Move) : LeavesNoTrace start moves := by
  have fresh : (⟨start, []⟩ : Trial σ).Sound :=
    ⟨List.forall_mem_nil _, .nil, List.forall_mem_nil _⟩
  obtain ⟨sound, agrees⟩ := Trial.sound_and_agrees_foldl fresh
    (⟨rfl, rfl⟩ : Trial.Agrees start ⟨start, []⟩ ⟨[], []⟩) moves
  have back {moment : Moment σ} (member : moment ∈ (start.tried moves).live) :
      (start.tried moves).session.tile.rollback moment.saved =
        { moment.session.tile with memories := (start.tried moves).session.tile.memories } := by
    rw [sound.saved_eq moment member]
    exact (sound.covers moment member).rollback_eq
  have same := agrees.session_eq
  constructor
  · intro moment member
    rw [back member]
  · intro moment member
    rw [back member]
  · exact congrArg (·.tile.coder) same
  · exact congrArg (·.tile.tables) same
  · exact congrArg (·.rows) same
  · exact congrArg (·.tile.memories) same

/-- **Speculative coding leaves no trace**, whether bytes or tokens are kept, or bits are counted;
so the payload is that of the surviving entries. -/
theorem leavesNoTrace (moves : List Move) :
    (∀ start : Session (TileWriter Payload), LeavesNoTrace start moves ∧
      (start.tried moves).session.tile.coder.finish =
        ((survivors moves).foldl Entry.write start).tile.coder.finish) ∧
    (∀ start : Session (TileWriter Recording), LeavesNoTrace start moves) ∧
    (∀ start : Session (TileWriter BitCount), LeavesNoTrace start moves) := by
  refine ⟨fun start => ?_, fun start => leavesNoTrace_of_lawful start moves,
    fun start => leavesNoTrace_of_lawful start moves⟩
  have traceless := leavesNoTrace_of_lawful start moves
  exact ⟨traceless, by rw [traceless.coder_eq]⟩

end TileCoder
