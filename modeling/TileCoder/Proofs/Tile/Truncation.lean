import TileCoder.Proofs.Range.Overlong
import TileCoder.Proofs.Recoding.Paths
import TileCoder.Proofs.Tile.Queries

/-!
# Reading from other payloads

A reader may be given any bytes at all. Whatever it reads from them is what a writer would have coded,
and the bytes select the writer's interval as far as they have been read
(`Session.Beside.answer_or_truncated`). So there are two ways only: either the reader comes upon the
end of the bytes or upon a value that was not coded (`Misreads`), or the bytes select the interval
after all that was coded (`Session.Beside.misreads_or_readsBack`).

For that they have to be as long as the payload, whose last byte is never superfluous: of a payload that
was cut off nothing is taken for the whole (`misreads_of_shorter`), unless so much is left that no
position is behind its end (`readsBack_overlong`).
-/

namespace TileCoder

open TileCoder.Range

/-- Reading goes wrong: it goes on as long as each value is the one that was coded, and comes upon the
end of the payload or upon another value. -/
def Misreads : List Call → Session TileReader → Prop
  | [], _ => False
  | call :: rest, reader =>
      (call.query.read reader).1 = .error .truncatedStream ∨
        (∃ other, other ≠ call.value ∧ (call.query.read reader).1 = .ok other) ∨
        ((call.query.read reader).1 = .ok call.value ∧ Misreads rest (call.query.read reader).2)

/-- A symbol at least is coded for the value. -/
def Query.Emits {α : Type} (query : Query α) (value : α) : Prop :=
  ∀ rows, query.coded rows value ≠ []

/-- What goes wrong is not read back. -/
theorem Misreads.not_readsBack {calls : List Call} {writer : Session (TileWriter Payload)}
    {reader : Session TileReader} (misreads : Misreads calls reader) :
    ¬ReadsBack calls writer reader := by
  induction calls generalizing writer reader with
  | nil => exact misreads.elim
  | cons call rest ih =>
      rintro ⟨value, -, later⟩
      rcases misreads with truncated | ⟨other, differs, read⟩ | ⟨-, misreads⟩
      · rw [truncated] at value
        cases value
      · rw [read] at value
        exact differs (Except.ok.inj value)
      · exact ih misreads later

/-- Bare bits are read as those of some number, unless the reader comes upon the end. -/
theorem TileReader.readField_or_truncated {reader : TileReader} {writer : Writer Payload}
    {payload : List UInt8} (paired : Paired writer payload reader.coder) (width start : Nat) :
    (reader.run (Parse.readField width start)).1 = .error .truncatedStream ∨
      ∃ (bits : List Bool) (coder : Reader), bits.length = width ∧
        reader.run (Parse.readField width start) =
          (.ok (bits.foldl Bits.append start), { reader with coder }) ∧
        Paired (bits.foldl Writer.bit writer) payload coder ∧
        (writer.interval.Ahead payload → (bits.foldl Writer.bit writer).interval.Ahead payload ∧
          (writer.interval.Selected payload ∨ width ≠ 0 →
            (bits.foldl Writer.bit writer).interval.Selected payload)) := by
  induction width generalizing reader writer start with
  | zero =>
      have known : writer.interval.Selected payload ∨ 0 ≠ 0 → writer.interval.Selected payload :=
        fun known => known.resolve_right (by simp)
      exact .inr ⟨[], reader.coder, rfl, rfl, paired, fun ahead => ⟨ahead, known⟩⟩
  | succ width ih =>
      rw [Parse.readField, TileReader.run, TileReader.bit]
      rcases paired.bit_or_truncated with ⟨next, read⟩ | ⟨bit, next, read, moved, selected⟩
      · rw [read]
        exact .inl rfl
      · rw [read]
        have moved : Paired (writer.bit bit) payload { reader with coder := next }.coder := moved
        refine (ih moved (Bits.append start bit)).imp_right ?_
        rintro ⟨bits, coder, rfl, result, last, reached⟩
        refine ⟨bit :: bits, coder, rfl, result, last, ?_⟩
        intro ahead
        have selected := selected ahead
        obtain ⟨still, reached⟩ := reached (selected.ahead ahead.measured)
        exact ⟨still, fun _ => reached (.inl selected)⟩

section Beside

variable {writer : Session (TileWriter Payload)} {payload : List UInt8}
  {reader : Session TileReader}

/-- What is read, if the reader does not come upon the end, is what a writer beside it has coded. -/
theorem Session.Beside.answer_or_truncated {α : Type} (beside : writer.Beside payload reader)
    {query : Query α} {value : α} (admits : query.Admits writer.rows value) :
    (query.read reader).1 = .error .truncatedStream ∨
      ∃ other, (query.read reader).1 = .ok other ∧
        (query.write writer other).Beside payload (query.read reader).2 ∧
        (writer.tile.coder.interval.Ahead payload →
          (query.write writer other).tile.coder.interval.Ahead payload ∧
            (writer.tile.coder.interval.Selected payload ∨ query.Emits value →
              (query.write writer other).tile.coder.interval.Selected payload)) := by
  cases query with
  | flag mass =>
      rw [Query.read, TileReader.get]
      rcases beside.coders.flag_or_truncated admits.2 with ⟨next, read⟩ | taken
      · rw [read]
        exact .inl rfl
      · obtain ⟨other, next, read, coders, selected⟩ := taken
        rw [read]
        exact .inr ⟨other, rfl, ⟨coders, beside.rows_eq, beside.adapts_eq, beside.usable⟩,
          fun ahead => ⟨(selected ahead).ahead ahead.measured, fun _ => selected ahead⟩⟩
  | literal width =>
      rw [Query.read, TileReader.get, Number.read, Parse.literal]
      refine (TileReader.readField_or_truncated beside.coders width 0).imp_right ?_
      rintro ⟨bits, coder, rfl, read, coders, selected⟩
      -- the digits that were read are those of the number that they make up
      have digits : Bits.ofNat bits.length (bits.foldl Bits.append 0) = bits :=
        Parse.ofNat_toNat bits
      have same : (Query.write writer (.literal bits.length) (bits.foldl Bits.append 0)).tile.coder =
          bits.foldl Writer.bit writer.tile.coder :=
        congrArg (List.foldl Writer.bit writer.tile.coder) digits
      have some_bits : (Query.literal bits.length).Emits value → bits.length ≠ 0 := by
        intro emits none
        exact emits [] (by rw [Query.coded, none]; rfl)
      rw [← same] at coders selected
      rw [read]
      exact ⟨_, rfl, ⟨coders, beside.rows_eq, beside.adapts_eq, beside.usable⟩,
        fun ahead => (selected ahead).imp_right fun known before => known (before.imp_right some_bits)⟩
  | symbol cdf =>
      have usable : cdf.Usable := ⟨admits.1, admits.2.1⟩
      rw [Query.read, TileReader.get]
      rcases beside.coders.symbol_or_truncated usable.roomy with ⟨next, read⟩ | taken
      · rw [read]
        exact .inl rfl
      · obtain ⟨other, next, -, read, coders, selected⟩ := taken
        rw [read]
        exact .inr ⟨other, rfl, ⟨coders, beside.rows_eq, beside.adapts_eq, beside.usable⟩,
          fun ahead => ⟨(selected ahead).ahead ahead.measured, fun _ => selected ahead⟩⟩
  | owned row =>
      have usable := beside.usable row admits.1
      rw [Query.read, TileReader.getAdapting, TileReader.get, beside.rows_eq]
      rcases beside.coders.symbol_or_truncated usable.roomy with ⟨next, read⟩ | taken
      · rw [read]
        exact .inl rfl
      · obtain ⟨other, next, inside, read, coders, selected⟩ := taken
        have admits : (Query.owned row).Admits writer.rows other := ⟨admits.1, inside⟩
        have still := Query.usable_write beside.usable admits
        rw [read]
        refine .inr ⟨other, rfl, ⟨coders, ?_, beside.adapts_eq, still⟩,
          fun ahead => ⟨(selected ahead).ahead ahead.measured, fun _ => selected ahead⟩⟩
        -- both sides adapt the row to what was read, whether it was coded or not
        show writer.rows.set row (Cdf.adapt _ reader.tile.adapts other) = _
        rw [beside.adapts_eq]
        rfl

/-- Either reading goes wrong, or all is read back and the payload selects the interval after it. -/
theorem Session.Beside.misreads_or_readsBack (beside : writer.Beside payload reader)
    {calls : List Call} (admits : ∀ call ∈ calls, call.query.Admits writer.rows call.value) :
    Misreads calls reader ∨
      (ReadsBack calls writer reader ∧
        (calls.foldl Call.write writer).tile.coder.interval.Contains (payloadPoint payload) ∧
        (writer.tile.coder.interval.Ahead payload →
          writer.tile.coder.interval.Selected payload ∨
              (∃ call ∈ calls, call.query.Emits call.value) →
            (calls.foldl Call.write writer).tile.coder.interval.Selected payload)) := by
  induction calls generalizing writer reader with
  | nil => exact .inr ⟨trivial, beside.coders.tracks.contains, fun _ known => by simpa using known⟩
  | cons call rest ih =>
      obtain ⟨here, later⟩ := List.forall_mem_cons.mp admits
      rcases beside.answer_or_truncated here with truncated | ⟨other, read, next, selected⟩
      · exact .inl (.inl truncated)
      · by_cases same : other = call.value
        · subst same
          rcases ih next (Session.Sound.admits_write call later) with misreads | kept
          · exact .inl (.inr (.inr ⟨read, misreads⟩))
          · obtain ⟨readsBack, contains, reached⟩ := kept
            refine .inr ⟨⟨read, next.rows_eq, readsBack⟩, contains, ?_⟩
            intro ahead
            obtain ⟨still, selected⟩ := selected ahead
            -- what the call did not emit, an earlier one or a later one has
            rintro (known | ⟨emitting, member, emits⟩)
            · exact reached still (.inl (selected (.inl known)))
            · rcases List.mem_cons.mp member with rfl | member
              · exact reached still (.inl (selected (.inr emits)))
              · exact reached still (.inr ⟨emitting, member, emits⟩)
        · exact .inl (.inr (.inl ⟨other, same, read⟩))

end Beside

/-- **A payload that is cut off does not pass for the whole.** If a symbol at least was coded, reading
goes wrong from each beginning of the payload but the whole, and indeed from any bytes that are fewer,
as long as these are not so many that a position starts over at their end. Of `endless` bytes or more no
end is found, so that reading goes wrong just if their point is not in the last range. -/
theorem misreads_of_shorter (rows : List Cdf) (tables : Tables) (adapts : Bool) (calls : List Call)
    (usable : ∀ cdf ∈ rows, cdf.Codable ∧ cdf.arity ≤ Cdf.maxSymbols)
    (admits : ∀ call ∈ calls, call.query.Admits rows call.value)
    (emits : ∃ call ∈ calls, call.query.Emits call.value) {cut : List UInt8}
    (shorter : cut.length <
      (calls.foldl Call.write (.write rows tables adapts)).tile.coder.finish.length) :
    (cut.length + 1 < endless → Misreads calls (.read rows cut tables adapts)) ∧
      (endless ≤ cut.length → (Misreads calls (.read rows cut tables adapts) ↔
        ¬(calls.foldl Call.write (.write rows tables adapts)).tile.coder.interval.Contains
          (payloadPoint cut))) := by
  have beside : (Session.write rows tables adapts).Beside cut (.read rows cut tables adapts) :=
    ⟨Paired.new cut, rfl, rfl, usableRows_of_forall usable⟩
  have either := beside.misreads_or_readsBack admits
  refine ⟨?_, ?_⟩
  · intro measured
    refine either.resolve_right ?_
    rintro ⟨-, -, selected⟩
    have ahead : (Session.write rows tables adapts).tile.coder.interval.Ahead cut :=
      ⟨measured, by
        show (Writer.new : Writer Payload).interval.bits ≤ _
        rw [Writer.interval_new]
        exact Nat.zero_le _⟩
    have long := (selected ahead (.inr emits)).long
    have needed := (beside.sound.run admits).coder.length_finish_lt
    omega
  · intro overlong
    constructor
    · intro misreads contains
      exact misreads.not_readsBack (beside.readsBack admits ⟨contains, .inr overlong⟩)
    · intro outside
      exact either.resolve_right fun kept => outside kept.2.1

/-- Of a payload of three bytes, neither the first two say all nor does the first one. -/
theorem misreads_of_shorter_interleaved :
    let rows : List Cdf := [[20000, 9000, 0, 0]]
    let calls : List Call :=
      [⟨.literal 0, 0⟩, ⟨.owned 0, 2⟩, ⟨.flag 12345, true⟩, ⟨.literal 5, 19⟩, ⟨.owned 0, 1⟩,
        ⟨.symbol [32767, 32700, 0, 32], 1⟩]
    let payload := (calls.foldl Call.write (.write rows .initial true)).tile.coder.finish
    (∀ cdf ∈ rows, Cdf.Codable cdf ∧ Cdf.arity cdf ≤ Cdf.maxSymbols) ∧
      (∀ call ∈ calls, call.query.Admits rows call.value) ∧
      (∃ call ∈ calls, call.query.Emits call.value) ∧ payload.length = 3 ∧
      Misreads calls (.read rows (payload.take 2) .initial true) ∧
      Misreads calls (.read rows (payload.take 1) .initial true) := by
  intro rows calls payload
  have usable : ∀ cdf ∈ rows, Cdf.Codable cdf ∧ Cdf.arity cdf ≤ Cdf.maxSymbols := by decide
  have admits : ∀ call ∈ calls, call.query.Admits rows call.value := by decide
  have emits : ∃ call ∈ calls, call.query.Emits call.value :=
    ⟨⟨.owned 0, 2⟩, List.mem_cons_of_mem _ List.mem_cons_self, fun _ => List.cons_ne_nil _ _⟩
  have length : payload.length = 3 := by decide
  have cut (bytes : Nat) (short : bytes < 3) : (payload.take bytes).length < payload.length := by
    rw [List.length_take, length]
    omega
  exact ⟨usable, admits, emits, length,
    (misreads_of_shorter _ _ _ _ usable admits emits (cut 2 (by decide))).1 (by decide),
    (misreads_of_shorter _ _ _ _ usable admits emits (cut 1 (by decide))).1 (by decide)⟩

/-- Of as many flags as make a payload of more than `endless` bytes, the first `endless` bytes say
all. -/
theorem readsBack_unlikely (flags : Nat) (many : 8 * endless ≤ 7 * flags) :
    let calls : List Call := List.replicate flags ⟨.flag 32767, false⟩
    let start := Session.write [] .initial true
    let payload := (calls.foldl Call.write start).tile.coder.finish
    (∀ call ∈ calls, call.query.Admits [] call.value) ∧
      (∃ call ∈ calls, call.query.Emits call.value) ∧
      (payload.take endless).length < payload.length ∧
      ReadsBack calls start (.read [] (payload.take endless) .initial true) := by
  intro calls start payload
  have some_flags : flags ≠ 0 := by
    unfold endless at many
    omega
  have admits : ∀ call ∈ calls, call.query.Admits [] call.value := by
    intro call member
    rw [List.eq_of_mem_replicate member]
    exact ⟨by decide, by decide⟩
  have coder : (calls.foldl Call.write start).tile.coder = Writer.unlikely flags :=
    Writer.coder_foldl_unlikely (fun session : Session (TileWriter Payload) => session.tile.coder) rfl
      (fun _ => rfl) flags
  have finish : payload = (Writer.unlikely flags).finish := congrArg Writer.finish coder
  have long : endless < payload.length := by
    have length := Writer.length_finish_unlikely flags
    rw [finish]
    omega
  have taken : (payload.take endless).length = endless := List.length_take_of_le long.le
  have selected : (calls.foldl Call.write start).tile.coder.interval.Selected
      (payload.take endless) := by
    have contains := (Writer.sound_unlikely flags).selected_finish.contains
    rw [← coder] at contains
    refine ⟨Interval.contains_take ?_ contains endless, .inr taken.ge⟩
    rw [coder]
    exact (Writer.interval_unlikely flags).1
  have beside : start.Beside (payload.take endless) (.read [] (payload.take endless) .initial true) :=
    ⟨Paired.new _, rfl, rfl, usableRows_of_forall (List.forall_mem_nil _)⟩
  exact ⟨admits, ⟨_, List.mem_replicate.mpr ⟨some_flags, rfl⟩, fun _ => List.cons_ne_nil _ _⟩,
    by omega, beside.readsBack admits selected⟩

/-- **A payload that is cut off may pass for the whole.** From 1073741824 flags come more than `endless`
bytes; all flags are read from the first `endless` bytes, and no read fails. -/
theorem readsBack_overlong :
    let calls : List Call := List.replicate 1073741824 ⟨.flag 32767, false⟩
    let start := Session.write [] .initial true
    let payload := (calls.foldl Call.write start).tile.coder.finish
    (∀ call ∈ calls, call.query.Admits [] call.value) ∧
      (∃ call ∈ calls, call.query.Emits call.value) ∧
      (payload.take endless).length < payload.length ∧
      ReadsBack calls start (.read [] (payload.take endless) .initial true) ∧
      ¬Misreads calls (.read [] (payload.take endless) .initial true) := by
  have kept := readsBack_unlikely 1073741824 (by decide)
  dsimp only at kept ⊢
  obtain ⟨admits, emits, shorter, readsBack⟩ := kept
  exact ⟨admits, emits, shorter, readsBack, fun misreads => misreads.not_readsBack readsBack⟩

end TileCoder
