import TileCoder.Proofs.Range.Paired
import TileCoder.Tile.Primitive

/-!
# Reading back what was coded

A caller codes a run of values, each as the answer to a query that a reader can ask in its turn: a
primitive, or a symbol of a row that the caller owns and that adapts. `readsBack_codeAll` is the
round trip: a reader of the payload gets each value that was coded, and has the same rows as the
writer had after every one.
-/

namespace TileCoder

open TileCoder.Range

/-- What a caller codes a value for, and what it asks a reader. -/
inductive Query : Type → Type where
  /-- A flag that is set with probability `mass / 32768`. -/
  | flag (mass : Nat) : Query Bool
  /-- A number of so many bare bits. -/
  | literal (width : Nat) : Query Nat
  /-- A symbol of a row that is handed in. -/
  | symbol (cdf : Cdf) : Query Nat
  /-- A symbol of one of the caller's own rows, which adapts to it. -/
  | owned (row : Nat) : Query Nat

/-- A query with the value that is coded for it. -/
structure Call where
  {α : Type}
  query : Query α
  value : α

/-- A caller's own rows, and a tile. -/
structure Session (τ : Type) where
  rows : List Cdf
  tile : τ

namespace Query

variable {α : Type}

/-- Codes a value. -/
def write (session : Session (TileWriter Payload)) : Query α → α → Session (TileWriter Payload)
  | flag mass, value => { session with tile := session.tile.put (.flag mass) value }
  | literal width, value =>
      { session with tile := session.tile.put (.number (.literal width)) value }
  | symbol cdf, value => { session with tile := session.tile.put (.adapting cdf) value }
  | owned row, value =>
      let (cdf, tile) := session.tile.putAdapting (session.rows.getD row []) value
      ⟨session.rows.set row cdf, tile⟩

/-- Goes on with a tile, the rows being the same. -/
def keepRows (session : Session TileReader) (read : Except CodingError α × TileReader) :
    Except CodingError α × Session TileReader :=
  (read.1, { session with tile := read.2 })

/-- Reads a value. -/
def read (session : Session TileReader) : Query α → Except CodingError α × Session TileReader
  | flag mass => keepRows session (session.tile.get (.flag mass))
  | literal width => keepRows session (session.tile.get (.number (.literal width)))
  | symbol cdf => keepRows session (session.tile.get (.adapting cdf))
  | owned row =>
      let (cdf, value, tile) := session.tile.getAdapting (session.rows.getD row [])
      (value, ⟨session.rows.set row cdf, tile⟩)

/-- What may be coded: flags that can have both values, numbers of at most thirty-two digits, and
symbols of codable rows of at most sixteen symbols. -/
def Admits (rows : List Cdf) : Query α → α → Prop
  | flag mass, _ => 0 < mass ∧ mass < Cdf.top
  | literal width, value => width ≤ Number.maxWidth ∧ value < 2 ^ width
  | symbol cdf, value => cdf.Codable ∧ cdf.arity ≤ Cdf.maxSymbols ∧ value < cdf.arity
  | owned row, value => row < rows.length ∧ value < (rows.getD row []).arity

instance (rows : List Cdf) (query : Query α) (value : α) : Decidable (query.Admits rows value) :=
  match query, value with
  | flag _, _ | literal _, _ | owned _, _ => inferInstanceAs (Decidable (_ ∧ _))
  | symbol _, _ => inferInstanceAs (Decidable (_ ∧ _ ∧ _))

end Query

/-- Codes the value of a call. -/
def Call.write (session : Session (TileWriter Payload)) (call : Call) :
    Session (TileWriter Payload) :=
  call.query.write session call.value

/-- Reading gives each value that is coded, with the same rows on both sides after it. -/
def ReadsBack : List Call → Session (TileWriter Payload) → Session TileReader → Prop
  | [], _, _ => True
  | call :: rest, writer, reader =>
      (call.query.read reader).1 = .ok call.value ∧
        (call.query.read reader).2.rows = (call.write writer).rows ∧
          ReadsBack rest (call.write writer) (call.query.read reader).2

/-! ## What a writer codes -/

/-- The symbols that are coded for a value, each with its row. -/
def Query.coded {α : Type} (rows : List Cdf) : Query α → α → List (Cdf × Nat)
  | flag mass, value => [(flagCdf mass, value.toNat)]
  | literal width, value =>
      (Bits.ofNat width value).map fun bit => (flagCdf evenOdds, bit.toNat)
  | symbol cdf, value => [(cdf, value)]
  | owned row, value => [(rows.getD row [], value)]

theorem Query.coder_write {α : Type} (session : Session (TileWriter Payload)) (query : Query α)
    (value : α) :
    (query.write session value).tile.coder =
      (query.coded session.rows value).foldl Writer.pair session.tile.coder := by
  cases query with
  | literal width =>
      rw [coded, List.foldl_map]
      rfl
  | _ => rfl

/-- The rows that can be coded with. -/
def UsableRows (rows : List Cdf) : Prop := ∀ row < rows.length, (rows.getD row []).Usable

theorem usableRows_of_forall {rows : List Cdf} (usable : ∀ cdf ∈ rows, cdf.Usable) :
    UsableRows rows := by
  intro row inside
  rw [List.getD_eq_getElem _ _ inside]
  exact usable _ (List.getElem_mem inside)

theorem Query.coded_of_admits {α : Type} {rows : List Cdf} (usable : UsableRows rows)
    {query : Query α} {value : α} (admits : query.Admits rows value) :
    ∀ p ∈ query.coded rows value, Coded p := by
  cases query with
  | flag mass => exact List.forall_mem_singleton.mpr (coded_flag admits.2 value)
  | literal width =>
      intro p member
      obtain ⟨bit, -, rfl⟩ := List.mem_map.mp member
      exact coded_bit bit
  | symbol cdf => exact List.forall_mem_singleton.mpr ⟨⟨admits.1, admits.2.1⟩, admits.2.2⟩
  | owned row => exact List.forall_mem_singleton.mpr ⟨usable row admits.1, admits.2⟩

theorem Cdf.Usable.adapt {cdf : Cdf} (usable : cdf.Usable) (adapts : Bool) (symbol : Nat) :
    (cdf.adapt adapts symbol).Usable := by
  unfold Cdf.adapt
  split
  · refine ⟨usable.1.update symbol, ?_⟩
    rw [Cdf.arity, Cdf.length_update]
    exact usable.2
  · exact usable

@[simp] theorem Cdf.arity_adapt (cdf : Cdf) (adapts : Bool) (symbol : Nat) :
    (cdf.adapt adapts symbol).arity = cdf.arity := by
  unfold Cdf.adapt Cdf.arity
  split <;> simp

theorem UsableRows.set {rows : List Cdf} (usable : UsableRows rows) {cdf : Cdf} (row : Nat)
    (row_usable : cdf.Usable) : UsableRows (rows.set row cdf) := by
  intro other inside
  rw [List.length_set] at inside
  by_cases same : row = other
  · subst same
    rwa [List.getD_eq_getElem _ _ (by simpa using inside), List.getElem_set_self]
  · rw [List.getD_eq_getElem _ _ (by simpa using inside), List.getElem_set_ne same,
      ← List.getD_eq_getElem _ [] inside]
    exact usable other inside

theorem Query.usable_write {α : Type} {session : Session (TileWriter Payload)}
    (usable : UsableRows session.rows) {query : Query α} {value : α}
    (admits : query.Admits session.rows value) : UsableRows (query.write session value).rows := by
  cases query with
  | owned row => exact usable.set row ((usable row admits.1).adapt _ value)
  | _ => exact usable

/-- Adaptation keeps the alphabets of all rows. -/
theorem map_arity_set_adapt (rows : List Cdf) (row : Nat) (adapts : Bool) (symbol : Nat) :
    (rows.set row ((rows.getD row []).adapt adapts symbol)).map Cdf.arity =
      rows.map Cdf.arity := by
  by_cases inside : row < rows.length
  · rw [List.map_set, Cdf.arity_adapt, List.getD_eq_getElem _ _ inside,
      ← List.getElem_map (f := Cdf.arity) (h := by simpa using inside)]
    exact List.set_getElem_self _
  · rw [List.set_eq_of_length_le (by omega)]

theorem Query.map_arity_write {α : Type} (session : Session (TileWriter Payload)) (query : Query α)
    (value : α) :
    (query.write session value).rows.map Cdf.arity = session.rows.map Cdf.arity := by
  cases query with
  | owned row => exact map_arity_set_adapt ..
  | _ => rfl

/-- A symbol of a row is one of every row with the same alphabet. -/
theorem inside_congr {rows others : List Cdf} (same : others.map Cdf.arity = rows.map Cdf.arity)
    {row value : Nat} (inside : row < rows.length ∧ value < (rows.getD row []).arity) :
    row < others.length ∧ value < (others.getD row []).arity := by
  have length : others.length = rows.length := by simpa using congrArg List.length same
  have arity (list : List Cdf) : (list.getD row []).arity = (list.map Cdf.arity).getD row 0 :=
    (List.getD_map list [] Cdf.arity).symm
  rw [length, arity, same, ← arity]
  exact inside

theorem Query.admits_congr {α : Type} {rows others : List Cdf}
    (same : others.map Cdf.arity = rows.map Cdf.arity) {query : Query α} {value : α}
    (admits : query.Admits rows value) : query.Admits others value := by
  cases query with
  | owned row => exact inside_congr same admits
  | _ => exact admits

/-- What the session of a writer keeps. -/
structure Session.Sound (session : Session (TileWriter Payload)) : Prop where
  coder : session.tile.coder.Sound
  rows : UsableRows session.rows

namespace Session.Sound

variable {writer : Session (TileWriter Payload)} {payload : List UInt8} {calls : List Call}

theorem write (sound : writer.Sound) {α : Type} {query : Query α} {value : α}
    (admits : query.Admits writer.rows value) : (query.write writer value).Sound where
  coder := by
    rw [Query.coder_write]
    exact sound.coder.foldl_pair (Query.coded_of_admits sound.rows admits)
  rows := Query.usable_write sound.rows admits

theorem selected_of_write (sound : writer.Sound) {α : Type} {query : Query α} {value : α}
    (admits : query.Admits writer.rows value)
    (selected : (query.write writer value).tile.coder.interval.Selected payload) :
    writer.tile.coder.interval.Selected payload := by
  rw [Query.coder_write] at selected
  exact sound.coder.selected_of_foldl (Query.coded_of_admits sound.rows admits) selected

/-- What may be coded next to each other may be coded one after another. -/
theorem admits_write {rest : List Call} (call : Call)
    (admits : ∀ next ∈ rest, next.query.Admits writer.rows next.value) :
    ∀ next ∈ rest, next.query.Admits (call.write writer).rows next.value := by
  intro next member
  exact Query.admits_congr (Query.map_arity_write _ _ _) (admits next member)

theorem run (sound : writer.Sound)
    (admits : ∀ call ∈ calls, call.query.Admits writer.rows call.value) :
    (calls.foldl Call.write writer).Sound := by
  induction calls generalizing writer with
  | nil => exact sound
  | cons call rest ih =>
      obtain ⟨here, later⟩ := List.forall_mem_cons.mp admits
      exact ih (sound.write here) (admits_write call later)

/-- What selects the interval after some calls selects the one before them. -/
theorem selected_of_run (sound : writer.Sound)
    (admits : ∀ call ∈ calls, call.query.Admits writer.rows call.value)
    (selected : (calls.foldl Call.write writer).tile.coder.interval.Selected payload) :
    writer.tile.coder.interval.Selected payload := by
  induction calls generalizing writer with
  | nil => exact selected
  | cons call rest ih =>
      obtain ⟨here, later⟩ := List.forall_mem_cons.mp admits
      exact sound.selected_of_write here
        (ih (sound.write here) (admits_write call later) selected)

end Session.Sound

/-! ## What a reader reads -/

/-- Bare bits are read into a number as they were coded. -/
theorem TileReader.run_readField {reader : TileReader} {writer : Writer Payload}
    {payload : List UInt8} (paired : Paired writer payload reader.coder) (bits : List Bool)
    (start : Nat) (selected : (bits.foldl Writer.bit writer).interval.Selected payload) :
    ∃ coder, reader.run (Parse.readField bits.length start) =
        (.ok (bits.foldl Bits.append start), { reader with coder }) ∧
      Paired (bits.foldl Writer.bit writer) payload coder := by
  induction bits generalizing reader writer start with
  | nil => exact ⟨reader.coder, rfl, paired⟩
  | cons bit rest ih =>
      rw [List.foldl_cons] at selected
      rw [List.foldl_cons, List.foldl_cons]
      have here := (paired.sound.bit bit).selected_of_bits selected
      obtain ⟨next, read, next_paired⟩ := paired.bit here
      have moved : Paired (writer.bit bit) payload { reader with coder := next }.coder :=
        next_paired
      obtain ⟨coder, result, last_paired⟩ := ih moved (Bits.append start bit) selected
      refine ⟨coder, ?_, last_paired⟩
      rw [List.length_cons, Parse.readField, TileReader.run, TileReader.bit, read]
      exact result

/-- A reader's session beside a writer's: the same rows, and a coder where the writer's is. -/
structure Session.Beside (writer : Session (TileWriter Payload)) (payload : List UInt8)
    (reader : Session TileReader) : Prop where
  coders : Paired writer.tile.coder payload reader.tile.coder
  rows_eq : reader.rows = writer.rows
  adapts_eq : reader.tile.adapts = writer.tile.adapts
  usable : UsableRows writer.rows

theorem Session.Beside.sound {writer : Session (TileWriter Payload)} {payload : List UInt8}
    {reader : Session TileReader} (beside : writer.Beside payload reader) : writer.Sound :=
  ⟨beside.coders.sound, beside.usable⟩

section Beside

variable {writer : Session (TileWriter Payload)} {payload : List UInt8}
  {reader : Session TileReader}

/-- The answer to a query is the value that is coded for it, and the sessions stay side by side. -/
theorem Session.Beside.step {α : Type} (beside : writer.Beside payload reader) {query : Query α}
    {value : α} (admits : query.Admits writer.rows value)
    (selected : (query.write writer value).tile.coder.interval.Selected payload) :
    (query.read reader).1 = .ok value ∧
      (query.write writer value).Beside payload (query.read reader).2 := by
  have still := (beside.sound.write admits).rows
  cases query with
  | flag mass =>
      obtain ⟨next, read, coders⟩ := beside.coders.flag admits.2 selected
      rw [Query.read, TileReader.get, read]
      exact ⟨rfl, coders, beside.rows_eq, beside.adapts_eq, still⟩
  | literal width =>
      obtain ⟨next, read, coders⟩ :=
        TileReader.run_readField beside.coders (Bits.ofNat width value) 0 selected
      have number : (Bits.ofNat width value).foldl Bits.append 0 = value :=
        Bits.toNat_ofNat admits.2
      rw [Bits.length_ofNat, number] at read
      rw [Query.read, TileReader.get, Number.read, Parse.literal, read]
      exact ⟨rfl, coders, beside.rows_eq, beside.adapts_eq, still⟩
  | symbol cdf =>
      have usable : cdf.Usable := ⟨admits.1, admits.2.1⟩
      obtain ⟨next, read, coders⟩ := beside.coders.symbol usable.roomy admits.2.2 selected
      rw [Query.read, TileReader.get, read]
      exact ⟨rfl, coders, beside.rows_eq, beside.adapts_eq, still⟩
  | owned row =>
      obtain ⟨next, read, coders⟩ :=
        beside.coders.symbol (beside.usable row admits.1).roomy admits.2 selected
      rw [Query.read, TileReader.getAdapting, TileReader.get, beside.rows_eq, read]
      -- both sides adapt the row that they have in common, with the same symbol
      refine ⟨rfl, coders, ?_, beside.adapts_eq, still⟩
      show writer.rows.set row (Cdf.adapt _ reader.tile.adapts value) = _
      rw [beside.adapts_eq]
      rfl

theorem Session.Beside.readsBack (beside : writer.Beside payload reader) {calls : List Call}
    (admits : ∀ call ∈ calls, call.query.Admits writer.rows call.value)
    (selected : (calls.foldl Call.write writer).tile.coder.interval.Selected payload) :
    ReadsBack calls writer reader := by
  induction calls generalizing writer reader with
  | nil => trivial
  | cons call rest ih =>
      obtain ⟨here, later⟩ := List.forall_mem_cons.mp admits
      have still := Session.Sound.admits_write call later
      have reached := (beside.sound.write here).selected_of_run still selected
      obtain ⟨value, next⟩ := beside.step here reached
      exact ⟨value, next.rows_eq, ih next still selected⟩

end Beside

/-! ## The round trip -/

/-- A writer's session in which nothing is coded yet. -/
def Session.write (rows : List Cdf) (tables : Tables) (adapts : Bool) :
    Session (TileWriter Payload) :=
  ⟨rows, .new tables adapts⟩

/-- A reader's session at the start of a payload. -/
def Session.read (rows : List Cdf) (payload : List UInt8) (tables : Tables) (adapts : Bool) :
    Session TileReader :=
  ⟨rows, .new payload tables adapts⟩

/-- **The range coder's round trip.** Whatever is coded, in whatever order, a reader of the payload
gets each value, and the caller's rows are the same on both sides after every one. -/
theorem readsBack_payload (rows : List Cdf) (tables : Tables) (adapts : Bool) (calls : List Call)
    (usable : ∀ cdf ∈ rows, cdf.Codable ∧ cdf.arity ≤ Cdf.maxSymbols)
    (admits : ∀ call ∈ calls, call.query.Admits rows call.value) :
    ReadsBack calls (.write rows tables adapts)
      (.read rows (calls.foldl Call.write (.write rows tables adapts)).tile.coder.finish tables
        adapts) := by
  have usable : UsableRows rows := by
    intro row inside
    rw [List.getD_eq_getElem _ _ inside]
    exact usable _ (List.getElem_mem inside)
  have sound : (Session.write rows tables adapts).Sound := ⟨Writer.sound_new, usable⟩
  have last := (sound.run admits).coder.selected_finish
  exact Session.Beside.readsBack ⟨Paired.new _, rfl, rfl, usable⟩ admits last

/-- A row that adapts between a flag, a number and a symbol of another row. -/
theorem readsBack_payload_interleaved :
    let rows : List Cdf := [[20000, 9000, 0, 0]]
    let calls : List Call :=
      [⟨.owned 0, 2⟩, ⟨.flag 12345, true⟩, ⟨.literal 5, 19⟩, ⟨.owned 0, 1⟩,
        ⟨.symbol [32767, 0, 32], 0⟩, ⟨.owned 0, 2⟩]
    let writer := calls.foldl Call.write (.write rows .initial true)
    (∀ cdf ∈ rows, Cdf.Codable cdf ∧ Cdf.arity cdf ≤ Cdf.maxSymbols) ∧
      (∀ call ∈ calls, call.query.Admits rows call.value) ∧
      writer.rows = [[22247, 11263, 0, 3]] ∧
      ReadsBack calls (.write rows .initial true)
        (.read rows writer.tile.coder.finish .initial true) :=
  ⟨by decide, by decide, by decide, readsBack_payload _ _ _ _ (by decide) (by decide)⟩

end TileCoder
