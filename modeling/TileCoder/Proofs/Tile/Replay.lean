import TileCoder.Proofs.Range.Outputs
import TileCoder.Proofs.Tile.Tokens

/-!
# Replaying a recording

A recorder keeps tokens, whose parts of the range are not known yet. It may be cut back to a
checkpoint, and the tables that it coded with move on. At last the tokens are replayed into another
coder, which is then just as if the entries that were kept had been coded into it, each with the
rows as they were when it was recorded; and the recorder starts over (`replays`). A recording has
the tokens of the entries that are kept and no others (`Recorder.Sound`).
-/

namespace TileCoder

open TileCoder.Range

/-! ## Recordings -/

/-- What a caller does with a recorder. -/
inductive RecorderAct where
  /-- Codes a value, whether it is accepted or not. -/
  | code (entry : Entry)
  /-- Takes a checkpoint of the recorder alone. -/
  | checkpoint
  /-- Cuts back to a checkpoint, which is counted from the latest one that is live. -/
  | rollback (depth : Nat)
  /-- All but the recorder becomes what it is in another session: the tables and the log, which may
  be rolled back on their own, the filters, and the rows of the caller. -/
  | context (other : Session (TileWriter Recording))

/-- An entry, and the session that it was coded in. -/
structure Recorded where
  session : Session (TileWriter Recording)
  entry : Entry

/-- A checkpoint, with the recorder as it was and the entries that it had. -/
structure Bookmark where
  saved : Range.Checkpoint
  coder : Writer Recording
  kept : List Recorded

/-- A session with a recorder, the entries that are recorded, and the live checkpoints, the latest
first. -/
structure Recorder where
  session : Session (TileWriter Recording)
  kept : List Recorded
  live : List Bookmark

namespace Recorder

/-- The recorder after an act. A rollback that asks for more checkpoints than are live does nothing.
-/
def act (recorder : Recorder) : RecorderAct → Recorder
  | .code entry =>
      { recorder with
        session := entry.write recorder.session
        kept := recorder.kept ++ [⟨recorder.session, entry⟩] }
  | .checkpoint =>
      let coder := recorder.session.tile.coder
      { recorder with live := ⟨coder.checkpoint, coder, recorder.kept⟩ :: recorder.live }
  | .rollback depth =>
      match recorder.live[depth]? with
      | none => recorder
      | some mark =>
          let coder := recorder.session.tile.coder.rollback mark.saved
          ⟨recorder.session.withCoder coder, mark.kept, recorder.live.drop depth⟩
  | .context other =>
      { recorder with session := other.withCoder recorder.session.tile.coder }

end Recorder

/-- What becomes of a session in which a recording is made. -/
def Session.record (session : Session (TileWriter Recording)) (acts : List RecorderAct) :
    Recorder :=
  acts.foldl Recorder.act ⟨session, [], []⟩

/-- Codes an entry into a coder, with the rows as they were when it was recorded. -/
def Recorded.codeInto {τ : Type} [Output τ] (target : Writer τ) (recorded : Recorded) : Writer τ :=
  (recorded.entry.write (recorded.session.withCoder target)).tile.coder

/-- A recording, and a coder in any state that it is replayed into. -/
structure Round where
  {τ : Type}
  [output : Output τ]
  acts : List RecorderAct
  target : Writer τ

attribute [instance] Round.output

/-- Round by round, replaying a recording is coding its entries, and leaves a fresh recorder for the
next round. -/
def Replays : List Round → Session (TileWriter Recording) → Prop
  | [], session => session.tile.coder = .new
  | round :: rest, session =>
      let recorder := session.record round.acts
      let (target, coder) := recorder.session.tile.coder.replay round.target
      target = recorder.kept.foldl Recorded.codeInto round.target ∧ coder = .new ∧
        Replays rest (recorder.session.withCoder coder)

/-! ## What a recording has -/

/-- The tokens of an entry that was recorded. -/
def Recorded.tokens (recorded : Recorded) : List Token := recorded.entry.tokens recorded.session

theorem Recorded.codeInto_eq {τ : Type} [Output τ] (target : Writer τ) (recorded : Recorded) :
    recorded.codeInto target = recorded.tokens.foldl Writer.put target := by
  rw [codeInto, Entry.write_withCoder]
  rfl

/-- A recording of some entries: their tokens and no others. -/
def Range.Writer.Records (coder : Writer Recording) (kept : List Recorded) : Prop :=
  coder.out.tokens.toList = kept.flatMap Recorded.tokens

namespace Range.Writer

theorem tokens_foldl_put (coder : Writer Recording) (tokens : List Token) :
    (tokens.foldl put coder).out.tokens.toList = coder.out.tokens.toList ++ tokens := by
  induction tokens generalizing coder with
  | nil => exact (List.append_nil _).symm
  | cons token rest ih =>
      rw [List.foldl_cons, ih]
      show (coder.out.tokens.push token).toList ++ rest = _
      rw [Array.toList_push, List.append_assoc]
      rfl

variable {coder : Writer Recording} {kept : List Recorded}

theorem Records.replay_eq {τ : Type} [Output τ] (records : coder.Records kept) (target : Writer τ) :
    (coder.replay target).1 = kept.foldl Recorded.codeInto target := by
  have direct (target : Writer τ) : kept.foldl Recorded.codeInto target =
      (kept.flatMap Recorded.tokens).foldl put target := by
    rw [List.foldl_flatMap]
    congr
    funext target recorded
    exact recorded.codeInto_eq target
  rw [direct, ← records, Array.foldl_toList]
  rfl

end Range.Writer

namespace Recorder

variable {recorder : Recorder}

/-- The recorder has what is kept, and can be cut back to what it had at each live checkpoint, which
in turn can be cut back to the earlier ones. -/
structure Sound (recorder : Recorder) : Prop where
  records : recorder.session.tile.coder.Records recorder.kept
  extends_live : ∀ mark ∈ recorder.live, recorder.session.tile.coder.Extends mark.coder
  nested : recorder.live.Pairwise fun later earlier => later.coder.Extends earlier.coder
  records_live : ∀ mark ∈ recorder.live, mark.coder.Records mark.kept
  saved_eq : ∀ mark ∈ recorder.live, mark.saved = mark.coder.checkpoint

/-- To go back to a live checkpoint is to have the recorder of that moment. -/
theorem Sound.act_rollback (sound : recorder.Sound) {depth : Nat} {mark : Bookmark}
    (found : recorder.live[depth]? = some mark) :
    recorder.act (.rollback depth) =
      ⟨recorder.session.withCoder mark.coder, mark.kept, recorder.live.drop depth⟩ := by
  have member := List.mem_of_getElem? found
  simp only [act, found, sound.saved_eq mark member, (sound.extends_live mark member).rollback_eq]

theorem Sound.act (sound : recorder.Sound) (next : RecorderAct) : (recorder.act next).Sound := by
  cases next with
  | code entry =>
      have coder := entry.coder_write recorder.session
      refine ⟨?_, ?_, sound.nested, sound.records_live, sound.saved_eq⟩
      · show (entry.write recorder.session).tile.coder.Records (recorder.kept ++ [⟨_, entry⟩])
        rw [coder, Writer.Records, Writer.tokens_foldl_put, sound.records, List.flatMap_append,
          List.flatMap_singleton]
        rfl
      · intro mark member
        show (entry.write recorder.session).tile.coder.Extends mark.coder
        rw [coder]
        exact (sound.extends_live mark member).foldl_put _
  | checkpoint =>
      exact ⟨sound.records,
        List.forall_mem_cons.mpr ⟨Writer.extends_self _, sound.extends_live⟩,
        List.pairwise_cons.mpr ⟨sound.extends_live, sound.nested⟩,
        List.forall_mem_cons.mpr ⟨sound.records, sound.records_live⟩,
        List.forall_mem_cons.mpr ⟨rfl, sound.saved_eq⟩⟩
  | rollback depth =>
      cases found : recorder.live[depth]? with
      | none =>
          simp only [Recorder.act, found]
          exact sound
      | some mark =>
          rw [sound.act_rollback found]
          have records := sound.records_live mark (List.mem_of_getElem? found)
          have extends_rest := forall_mem_drop_of_pairwise sound.nested found
          exact ⟨records, extends_rest (Writer.extends_self mark.coder), sound.nested.drop,
            forall_mem_drop sound.records_live depth, forall_mem_drop sound.saved_eq depth⟩
  | context other =>
      exact ⟨sound.records, sound.extends_live, sound.nested, sound.records_live, sound.saved_eq⟩

theorem Sound.foldl (sound : recorder.Sound) (acts : List RecorderAct) :
    (acts.foldl Recorder.act recorder).Sound := by
  induction acts generalizing recorder with
  | nil => exact sound
  | cons next rest ih => exact ih (sound.act next)

end Recorder

/-- A recording that is made from the start has what is kept of it. -/
theorem Session.sound_record {session : Session (TileWriter Recording)}
    (fresh : session.tile.coder = .new) (acts : List RecorderAct) :
    (session.record acts).Sound := by
  refine Recorder.Sound.foldl ⟨?_, List.forall_mem_nil _, .nil, List.forall_mem_nil _,
    List.forall_mem_nil _⟩ acts
  rw [fresh]
  rfl

theorem replays_of_new (rounds : List Round) {session : Session (TileWriter Recording)}
    (fresh : session.tile.coder = .new) : Replays rounds session := by
  induction rounds generalizing session with
  | nil => exact fresh
  | cons round rest ih =>
      have sound := session.sound_record fresh round.acts
      exact ⟨sound.records.replay_eq round.target, rfl, ih rfl⟩

/-- **Replay is direct coding**: round by round, into coders of any kind and in any state. So the
payloads are the same. -/
theorem replays (rounds : List Round) (start : Session (TileWriter Recording)) :
    Replays rounds (start.withCoder .new) ∧
      ∀ (acts : List RecorderAct) (target : Writer Payload),
        let recorder := (start.withCoder .new).record acts
        (recorder.session.tile.coder.replay target).1.finish =
          (recorder.kept.foldl Recorded.codeInto target).finish := by
  refine ⟨replays_of_new rounds rfl, ?_⟩
  intro acts target recorder
  rw [(Session.sound_record rfl acts).records.replay_eq target]

end TileCoder
