import TileCoder.Proofs.Frame.InStep
import TileCoder.Proofs.Range.Room

/-!
# Symbols with rows of the caller's

A tile takes a symbol with any row that passes its check, however many symbols the row has. As long as
the row of every call has room for its symbols, whatever was accepted is read back (`ReadBack`), and an
adapting row is left the same on both sides. `symbols_readBack_of_room` puts this beside what the check
of a row leaves open: an accepted row may lack the room, and then a fresh tile never reads its first
symbol.
-/

namespace TileCoder

open TileCoder.Range

/-- A symbol that is coded with a row of the caller's, which may adapt to it. -/
structure SymbolCall where
  cdf : Cdf
  value : Nat
  adapting : Bool
  deriving DecidableEq, Repr

namespace SymbolCall

/-- What is coded. -/
def primitive (call : SymbolCall) : Primitive Nat :=
  if call.adapting then .adapting call.cdf else .symbol call.cdf

/-- The row passes its check, and the symbol is one of the row's. -/
def Accepted (call : SymbolCall) : Prop := call.primitive.check call.value = .ok ()

instance (call : SymbolCall) : Decidable call.Accepted := inferInstanceAs (Decidable (_ = _))

/-- Codes the symbol: the row that the caller is left with, and what the tile answers. -/
def put (call : SymbolCall) (tile : FrameTile Payload) :
    Cdf × Except CodingError Unit × FrameTile Payload :=
  if call.adapting then tile.putAdapting call.cdf call.value
  else (call.cdf, tile.put (.symbol call.cdf) call.value)

/-- Reads a symbol with the same row. -/
def get (call : SymbolCall) (tile : TileReader) : Cdf × Except CodingError Nat × TileReader :=
  if call.adapting then tile.getCheckedAdapting call.cdf
  else (call.cdf, tile.getChecked (.symbol call.cdf))

/-- Every call is taken without an error, its symbol is read back, and both sides are left with the
same row. -/
def ReadBack : List SymbolCall → FrameTile Payload → TileReader → Prop
  | [], _, _ => True
  | call :: rest, writer, reader =>
      (call.put writer).2.1 = .ok () ∧ (call.get reader).2.1 = .ok call.value ∧
        (call.get reader).1 = (call.put writer).1 ∧
          ReadBack rest (call.put writer).2.2 (call.get reader).2.2

section Calls

variable {call : SymbolCall} {calls : List SymbolCall} {writer : FrameTile Payload}
  {reader : TileReader} {payload : List UInt8}

theorem Accepted.codable (accepted : call.Accepted) : call.cdf.Codable := by
  unfold Accepted primitive at accepted
  split at accepted
  · obtain ⟨_, codable, -⟩ := bind_eq_ok.mp accepted
    exact Cdf.checkCodable_eq_ok.mp codable
  · obtain ⟨_, strict, -⟩ := bind_eq_ok.mp accepted
    exact (Cdf.checkStrict_eq_ok.mp strict).codable

theorem Accepted.inside (accepted : call.Accepted) : call.value < call.cdf.arity := by
  unfold Accepted primitive at accepted
  split at accepted
  · obtain ⟨_, -, inside⟩ := bind_eq_ok.mp accepted
    exact checkSymbol_eq_ok.mp inside
  · obtain ⟨_, -, inside⟩ := bind_eq_ok.mp accepted
    exact checkSymbol_eq_ok.mp inside

/-- The tile of a frame after a symbol. -/
def after (call : SymbolCall) (tile : FrameTile Payload) : FrameTile Payload :=
  { tile with writer := tile.writer.put (.symbol call.cdf) call.value }

/-- The row after the symbol, in a tile that adapts rows or does not. -/
def row (call : SymbolCall) (adapts : Bool) : Cdf :=
  if call.adapting then call.cdf.adapt adapts call.value else call.cdf

/-- A tile without a limit takes an accepted symbol. -/
theorem put_eq (accepted : call.Accepted) (unlimited : writer.budget = none) :
    call.put writer = (call.row writer.writer.adapts, .ok (), call.after writer) := by
  unfold Accepted primitive at accepted
  unfold put row
  split
  next adapting =>
    rw [if_pos adapting] at accepted
    exact FrameTile.putAdapting_of_check unlimited accepted
  next fixed =>
    rw [if_neg fixed] at accepted
    exact congrArg (Prod.mk _) (FrameTile.put_of_check unlimited accepted)

/-- Where the coder reads the symbol of an accepted call, the tile does. -/
theorem get_eq (accepted : call.Accepted) {coder : Reader}
    (read : reader.coder.symbol call.cdf = (.ok call.value, coder)) :
    call.get reader = (call.row reader.adapts, .ok call.value, { reader with coder }) := by
  unfold Accepted primitive at accepted
  unfold get row
  split
  next adapting =>
    rw [if_pos adapting] at accepted
    rw [TileReader.getCheckedAdapting, TileReader.getChecked_eq accepted, TileReader.get,
      TileReader.coded, read]
    rfl
  next fixed =>
    rw [if_neg fixed] at accepted
    rw [TileReader.getChecked_eq accepted, TileReader.get, TileReader.coded, read]

/-- What the tile answers is what its coder does. -/
theorem value_get (accepted : call.Accepted) (reader : TileReader) :
    (call.get reader).2.1 = (reader.coder.symbol call.cdf).1 := by
  unfold Accepted primitive at accepted
  unfold get
  split
  next adapting =>
    rw [if_pos adapting] at accepted
    rw [TileReader.getCheckedAdapting, TileReader.getChecked_eq accepted, TileReader.get]
    unfold TileReader.coded TileReader.adaptTo
    cases (reader.coder.symbol call.cdf).1 <;> rfl
  next fixed =>
    rw [if_neg fixed] at accepted
    rw [TileReader.getChecked_eq accepted, TileReader.get, TileReader.coded]

/-- A reader is beside the writer in the tile of a frame. -/
structure Beside (writer : FrameTile Payload) (payload : List UInt8) (reader : TileReader) :
    Prop where
  unlimited : writer.budget = none
  coders : Paired writer.writer.coder payload reader.coder
  adapts_eq : reader.adapts = writer.writer.adapts

theorem sound_foldl_after (sound : writer.writer.coder.Sound)
    (accepted : ∀ call ∈ calls, call.Accepted) (roomy : ∀ call ∈ calls, call.cdf.Roomy) :
    (calls.foldl (fun tile call => call.after tile) writer).writer.coder.Sound := by
  induction calls generalizing writer with
  | nil => exact sound
  | cons call rest ih =>
      obtain ⟨here_accepted, rest_accepted⟩ := List.forall_mem_cons.mp accepted
      obtain ⟨here_roomy, rest_roomy⟩ := List.forall_mem_cons.mp roomy
      have next : (call.after writer).writer.coder.Sound :=
        sound.symbol here_roomy here_accepted.inside
      exact ih next rest_accepted rest_roomy

/-- What selects the interval after some symbols selects the one before them. -/
theorem selected_of_foldl_after (sound : writer.writer.coder.Sound)
    (accepted : ∀ call ∈ calls, call.Accepted) (roomy : ∀ call ∈ calls, call.cdf.Roomy)
    (selected : (calls.foldl (fun tile call => call.after tile) writer).writer.coder.interval.Selected
      payload) : writer.writer.coder.interval.Selected payload := by
  induction calls generalizing writer with
  | nil => exact selected
  | cons call rest ih =>
      obtain ⟨here_accepted, rest_accepted⟩ := List.forall_mem_cons.mp accepted
      obtain ⟨here_roomy, rest_roomy⟩ := List.forall_mem_cons.mp roomy
      have next : (call.after writer).writer.coder.Sound :=
        sound.symbol here_roomy here_accepted.inside
      exact sound.selected_of_symbol here_roomy here_accepted.inside
        (ih next rest_accepted rest_roomy selected)

theorem Beside.readBack (beside : Beside writer payload reader)
    (accepted : ∀ call ∈ calls, call.Accepted) (roomy : ∀ call ∈ calls, call.cdf.Roomy)
    (selected : (calls.foldl (fun tile call => call.after tile) writer).writer.coder.interval.Selected
      payload) : ReadBack calls writer reader := by
  induction calls generalizing writer reader with
  | nil => trivial
  | cons call rest ih =>
      obtain ⟨here_accepted, rest_accepted⟩ := List.forall_mem_cons.mp accepted
      obtain ⟨here_roomy, rest_roomy⟩ := List.forall_mem_cons.mp roomy
      have inside := here_accepted.inside
      have next : (call.after writer).writer.coder.Sound :=
        beside.coders.sound.symbol here_roomy inside
      have here := selected_of_foldl_after next rest_accepted rest_roomy selected
      obtain ⟨coder, read, coders⟩ := beside.coders.symbol here_roomy inside here
      rw [ReadBack, put_eq here_accepted beside.unlimited, get_eq here_accepted read]
      have still : Beside (call.after writer) payload { reader with coder } :=
        ⟨beside.unlimited, coders, beside.adapts_eq⟩
      exact ⟨rfl, rfl, congrArg call.row beside.adapts_eq,
        ih still rest_accepted rest_roomy selected⟩

theorem foldl_put (unlimited : writer.budget = none) (accepted : ∀ call ∈ calls, call.Accepted) :
    calls.foldl (fun tile call => (call.put tile).2.2) writer =
      calls.foldl (fun tile call => call.after tile) writer := by
  induction calls generalizing writer with
  | nil => rfl
  | cons call rest ih =>
      obtain ⟨here, later⟩ := List.forall_mem_cons.mp accepted
      have still : (call.after writer).budget = none := unlimited
      rw [List.foldl_cons, List.foldl_cons, put_eq here unlimited]
      exact ih still later

theorem budget_foldl_after (calls : List SymbolCall) (writer : FrameTile Payload) :
    (calls.foldl (fun tile call => call.after tile) writer).budget = writer.budget := by
  induction calls generalizing writer with
  | nil => rfl
  | cons call rest ih => exact ih (call.after writer)

/-- What a tile without a limit has taken is read back from its payload, where every row has room. -/
theorem readBack_finish {frame : Frame} (unlimited : frame.budget = none) (id : Nat)
    (accepted : ∀ call ∈ calls, call.Accepted) (roomy : ∀ call ∈ calls, call.cdf.Roomy) :
    ∃ payload outcome,
      (calls.foldl (fun tile call => (call.put tile).2.2) (frame.writeTile id)).finish =
          .ok (payload, outcome) ∧
        ReadBack calls (frame.writeTile id) (frame.readTile payload) := by
  have fresh : (frame.writeTile id).writer.coder.Sound := Writer.sound_new
  have sound := sound_foldl_after fresh accepted roomy
  have still : (calls.foldl (fun tile call => call.after tile) (frame.writeTile id)).budget = none :=
    (budget_foldl_after _ _).trans unlimited
  rw [foldl_put unlimited accepted]
  refine ⟨_, _, FrameTile.finish_eq still, ?_⟩
  have beside (payload : List UInt8) :
      Beside (frame.writeTile id) payload (frame.readTile payload) :=
    ⟨unlimited, Paired.new payload, rfl⟩
  exact (beside _).readBack accepted roomy sound.selected_finish

/-- A fresh tile does not read the first symbol of a row without the room, whatever its payload. -/
theorem get_ne_zero_of_crowded (accepted : call.Accepted) (crowded : ¬call.cdf.Roomy) (frame : Frame)
    (payload : List UInt8) : (call.get (frame.readTile payload)).2.1 ≠ .ok 0 := by
  have sound : (Reader.ofBytes payload).Sound := Reader.sound_ofBytes payload
  have least : (Reader.ofBytes payload).range = fullRange := Reader.range_refill _
  rw [value_get accepted]
  exact symbol_ne_zero_of_crowded accepted.codable crowded least sound.window_lt

end Calls

end SymbolCall

/-- **What the check of a row is enough for.** Each accepted row gives every symbol a part of every
range in scale, without any difference that falls below zero, apart from all others, and told apart by
readers, if and only if it has room for its symbols; rows of sixteen symbols have, and where the room is
missing a fresh tile never reads the first symbol. If all rows have it, a tile without a limit takes
whatever symbols are accepted, and they are read back. -/
theorem symbols_readBack_of_room {frame : Frame} (unlimited : frame.budget = none) (id : Nat)
    {calls : List SymbolCall} (accepted : ∀ call ∈ calls, call.Accepted) :
    (∀ call ∈ calls,
      (Shares call.cdf ↔ 64 * (call.cdf.getD 0 0 / 64) + minPart * call.cdf.arity ≤ fullRange) ∧
        (call.cdf.arity ≤ Cdf.maxSymbols → Shares call.cdf) ∧
        (¬Shares call.cdf → ∀ payload, (call.get (frame.readTile payload)).2.1 ≠ .ok 0)) ∧
      ((∀ call ∈ calls, Shares call.cdf) → ∃ payload outcome,
        (calls.foldl (fun tile call => (call.put tile).2.2) (frame.writeTile id)).finish =
            .ok (payload, outcome) ∧
          SymbolCall.ReadBack calls (frame.writeTile id) (frame.readTile payload)) := by
  refine ⟨?_, ?_⟩
  · intro call among
    have codable := (accepted call among).codable
    refine ⟨(shares_iff codable).trans (and_iff_right codable), ?_, ?_⟩
    · intro few
      have usable : call.cdf.Usable := ⟨codable, few⟩
      exact shares_of_roomy usable.roomy
    · intro crowded payload
      have lacks : ¬call.cdf.Roomy := fun roomy => crowded (shares_of_roomy roomy)
      exact SymbolCall.get_ne_zero_of_crowded (accepted call among) lacks frame payload
  · intro share
    refine SymbolCall.readBack_finish unlimited id accepted ?_
    intro call among
    exact (shares_iff (accepted call among).codable).mp (share call among)

/-- A row of seventeen symbols with room for all, in its first use. -/
def wideRow : Cdf :=
  [30000, 28000, 26000, 24000, 22000, 20000, 18000, 16000, 14000, 12000, 10000, 8000, 6000, 4000, 2000,
    1000, 0, 0]

/-- Its first and its last symbol are read back, with a symbol of another row in between. -/
theorem symbols_readBack_wideRow :
    let calls : List SymbolCall :=
      [⟨wideRow, 0, true⟩, ⟨[20000, 10000, 0, 0], 1, false⟩, ⟨wideRow.update 0, 16, true⟩]
    let frame : Frame := ⟨.keyFrame, .initial, none⟩
    (∀ call ∈ calls, call.Accepted) ∧ ∃ payload outcome,
      (calls.foldl (fun tile call => (call.put tile).2.2) (frame.writeTile 0)).finish =
          .ok (payload, outcome) ∧
        SymbolCall.ReadBack calls (frame.writeTile 0) (frame.readTile payload) := by
  intro calls frame
  have accepted : ∀ call ∈ calls, call.Accepted := by decide
  have room : ∀ call ∈ calls,
      64 * (call.cdf.getD 0 0 / 64) + minPart * call.cdf.arity ≤ fullRange := by decide
  obtain ⟨rows, readBack⟩ :=
    symbols_readBack_of_room (show frame.budget = none from rfl) 0 accepted
  exact ⟨accepted, readBack fun call among => (rows call among).1.mpr (room call among)⟩

/-- A row of seventeen symbols, the last of which has nearly all of the mass. -/
def crowdedRow : Cdf :=
  [32767, 32766, 32765, 32764, 32763, 32762, 32761, 32760, 32759, 32758, 32757, 32756, 32755, 32754,
    32753, 32752, 0, 0]

/-- **Seventeen symbols may be too many.** The row passes both checks, but nothing of the least range is
left to its first symbol. The payload of zeros, whose point is the first place of that symbol, is read
as the second one. -/
theorem not_shares_crowdedRow :
    crowdedRow.checkStrict = .ok () ∧ crowdedRow.checkCodable = .ok () ∧
      (Token.ofSymbol crowdedRow 0).part? fullRange = some ⟨0, 0⟩ ∧
      (Reader.ofBytes [0, 0]).place = 0 ∧
      ((Reader.ofBytes [0, 0]).symbol crowdedRow).1 = .ok 1 ∧ ¬Shares crowdedRow := by
  refine ⟨by decide, by decide, by decide, by decide, by decide, ?_⟩
  rw [shares_iff (by decide)]
  decide

end TileCoder
