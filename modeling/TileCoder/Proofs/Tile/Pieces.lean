import TileCoder.Frame.Tile
import TileCoder.Proofs.Element.References
import TileCoder.Proofs.Element.Restoration
import TileCoder.Proofs.Tile.Programs
import TileCoder.Proofs.Tile.Queries

/-!
# All that a tile codes

A `Piece` is what a caller codes a value for: an element, the restoration filter of a unit, a
primitive, or a symbol of a row of its own. A writer that is handed a value which the piece admits
has a reader in step with it read the value and stay in step (`Session.Ready.conveys_piece`).
-/

namespace TileCoder

open TileCoder.Range

/-! ## Pieces -/

/-- What a caller codes a value for. -/
inductive Piece : Type → Type 1 where
  | element {α : Type} (element : Element α) : Piece α
  /-- The filter of a restoration unit, coded from what the tile remembers of the plane. -/
  | filter (choice : RestorationChoice) (plane : Plane) : Piece RestorationFilter
  | primitive {α : Type} (primitive : Primitive α) : Piece α
  /-- A symbol of one of the caller's own rows, which adapts to it. -/
  | owned (row : Nat) : Piece Nat

/-- A piece with the value that is coded for it. -/
structure Entry where
  {α : Type}
  piece : Piece α
  value : α

/-- The element that a restoration unit is. -/
def PlaneMemories.unit (memories : PlaneMemories) (choice : RestorationChoice) (plane : Plane) :
    Element RestorationFilter :=
  .restoration ⟨choice, plane, memories.get plane⟩

namespace Piece

variable {σ : Type} [Output σ] {α : Type}

/-- Codes a value, whatever it is. -/
def write (session : Session (TileWriter σ)) : Piece α → α → Session (TileWriter σ)
  | element coded, value => { session with tile := (session.tile.run (coded.write value)).2 }
  | filter choice plane, value =>
      let coded := session.tile.memories.unit choice plane
      { session with tile := (session.tile.run (coded.write value)).2 }
  | primitive coded, value => { session with tile := session.tile.put coded value }
  | owned row, value =>
      let (cdf, tile) := session.tile.putAdapting (session.rows.getD row []) value
      ⟨session.rows.set row cdf, tile⟩

/-- Reads a value. -/
def get (session : Session TileReader) : Piece α → Except CodingError α × Session TileReader
  | element coded => Query.keepRows session (session.tile.run coded.read)
  | filter choice plane =>
      let coded := session.tile.memories.unit choice plane
      Query.keepRows session (session.tile.run coded.read)
  | primitive coded => Query.keepRows session (session.tile.getChecked coded)
  | owned row =>
      let (cdf, value, tile) := session.tile.getCheckedAdapting (session.rows.getD row [])
      (value, ⟨session.rows.set row cdf, tile⟩)

/-- The value that is read is the one that was written, as far as it is written. -/
def SameValue : Piece α → α → α → Prop
  | element coded, written, read => coded.SameValue written read
  | _, written, read => read = written

end Piece

/-- Codes the value of an entry. -/
def Entry.write {σ : Type} [Output σ] (session : Session (TileWriter σ)) (entry : Entry) :
    Session (TileWriter σ) :=
  entry.piece.write session entry.value

/-! ## What may be coded -/

/-- What the caller of an element sees to: that a map has room where it is read, that a mode has an
index if one is coded, and that a strength fits its digits. References are to other frames, and the
choice of a filter is not a reserved one. -/
def Element.Sayable {α : Type} : Element α → α → Prop
  | colorMap site room, _ => site.area ≤ room
  | references _, refs => refs.second ≠ .intra
  | candidate mode _, _ => Inter.firstCandidate? mode ≠ none
  | restoration site, _ => site.choice ≠ .reserved ∧ site.memory.InRange
  | strength digits, value => value < 2 ^ digits ∧ value < 256
  | _, _ => True

/-- The bounds of a code: first bins of at most thirty digits, half as many numbers as there are
words, and words for values. -/
def Number.InBounds : Number → (value : Nat) → Prop
  | literal _, _ => True
  | gamma, value => value < wordSize
  | uniform size, value => value < size
  | subexp k, value => k ≤ 30 ∧ value < wordSize
  | subexpBelow size k, _ | subexpAround size k _, _ => size ≤ wordSize / 2 ∧ k ≤ 30
  | bilevel size _ _, _ => size ≤ wordSize / 2

/-- The bounds of a primitive: of a distribution, at most sixteen symbols, and of a signed number, a
reference that is in its range. -/
def Primitive.InBounds {α : Type} : Primitive α → α → Prop
  | flag _, _ => True
  | symbol cdf, _ | adapting cdf, _ => cdf.arity ≤ Cdf.maxSymbols
  | number code, value => code.InBounds value
  | signed low high _ reference, value =>
      high - low ≤ 2 ^ 31 ∧ (low ≤ reference ∧ reference < high) ∧ low ≤ value ∧ value < high

/-- What may be coded: values that an element accepts, that a unit may have, that pass the check of
a primitive, or that are symbols of a row. -/
def Piece.Admits (rows : List Cdf) {α : Type} : Piece α → α → Prop
  | element coded, value => (coded.write value).result = .ok () ∧ coded.Sayable value
  | filter choice plane, value =>
      choice ≠ .reserved ∧ RestorationFilter.IsCodable choice plane value
  | primitive coded, value => coded.check value = .ok () ∧ coded.InBounds value
  | owned row, value => row < rows.length ∧ value < (rows.getD row []).arity

theorem PlaneMemories.accepted_unit (memories : PlaneMemories) {choice : RestorationChoice}
    {plane : Plane} {filter : RestorationFilter}
    (codable : RestorationFilter.IsCodable choice plane filter) :
    ((memories.unit choice plane).write filter).result = .ok () :=
  RestorationFilter.accepted_iff.mpr codable

theorem Number.fits_of_check {number : Number} {value : Nat} (checked : number.check value = .ok ())
    (inBounds : number.InBounds value) : number.Fits value := by
  cases number with
  | literal width =>
      change checkLiteral width value = .ok () at checked
      unfold checkLiteral at checked
      split at checked
      · cases checked
      next fits => exact Nat.lt_of_not_le (not_or.mp fits).2
  | gamma => exact inBounds
  | uniform size => exact inBounds
  | subexp k => exact ⟨Nat.le_trans inBounds.1 (by decide), inBounds.2⟩
  | subexpBelow size k => exact checkSymbol_eq_ok.mp checked
  | subexpAround size k reference =>
      obtain ⟨_, reference_lt, checked⟩ := bind_eq_ok.mp checked
      exact ⟨inBounds.1, checkSymbol_eq_ok.mp reference_lt, checkSymbol_eq_ok.mp checked⟩
  | bilevel size span reference =>
      obtain ⟨_, reference_lt, checked⟩ := bind_eq_ok.mp checked
      obtain ⟨_, value_lt, checked⟩ := bind_eq_ok.mp checked
      change checkWindow size span = .ok () at checked
      unfold checkWindow at checked
      split at checked
      · cases checked
      next window =>
        obtain ⟨some, within⟩ := not_or.mp window
        have reference := checkSymbol_eq_ok.mp reference_lt
        exact ⟨⟨Nat.pos_of_ne_zero some, Nat.le_of_not_lt within, reference⟩,
          checkSymbol_eq_ok.mp value_lt⟩

/-! ## What is conveyed

Between two states of a writer something is coded, and a reader makes a value of it. -/

namespace TileWriter

/-- What a writer codes on its way is read as a value by a reader that is in step with it and is in
step afterwards; what selects the interval at the end selects the one at the start. -/
structure Conveys {α : Type} (before after : TileWriter Payload)
    (read : TileReader → Except CodingError α × TileReader) (value : α) : Prop where
  sound : after.Sound
  selected : ∀ {payload}, after.coder.interval.Selected payload →
    before.coder.interval.Selected payload
  reads : ∀ {payload reader}, InSync before payload reader →
    after.coder.interval.Selected payload →
      ∃ next, read reader = (.ok value, next) ∧ InSync after payload next

variable {tile : TileWriter Payload} {α : Type}

theorem Sound.conveys_steps (sound : tile.Sound) {read : Parse α} {steps : List Step} {value : α}
    (follows : read.Follows steps value) :
    tile.Conveys (steps.foldl TileWriter.step tile) (·.run read) value where
  sound := sound.run follows.fits
  selected := sound.selected_of_run follows.fits
  reads sync selected := sync.run follows selected

/-- Bare bits are steps like others. -/
theorem bits_eq_foldl (tile : TileWriter Payload) (bits : List Bool) :
    tile.bits bits = (bits.map Step.bit).foldl TileWriter.step tile := by
  induction bits generalizing tile with
  | nil => rfl
  | cons bit rest ih => exact ih { tile with coder := tile.coder.bit bit }

theorem Sound.conveys_bits (sound : tile.Sound) {read : Parse α} {bits : List Bool} {value : α}
    (follows : read.Follows (bits.map .bit) value) :
    tile.Conveys (tile.bits bits) (·.run read) value := by
  rw [bits_eq_foldl]
  exact sound.conveys_steps follows

theorem Sound.conveys_symbol (sound : tile.Sound) {cdf : Cdf} (roomy : cdf.Roomy) {value : Nat}
    (inside : value < cdf.arity) :
    tile.Conveys { tile with coder := tile.coder.symbol cdf value }
      (fun reader => reader.coded (reader.coder.symbol cdf)) value where
  sound := ⟨sound.coder.symbol roomy inside, sound.tables, sound.memories⟩
  selected := sound.coder.selected_of_symbol roomy inside
  reads sync selected := by
    obtain ⟨coder, read, coders⟩ := sync.coders.symbol roomy inside selected
    rw [read]
    exact ⟨_, rfl, coders, sync.codable, sync.tables_eq, sync.adapts_eq, sync.memories_eq,
      sync.inRange⟩

theorem Sound.conveys_flag (sound : tile.Sound) {mass : Nat} (below : mass < Cdf.top)
    (value : Bool) :
    tile.Conveys { tile with coder := tile.coder.flag mass value }
      (fun reader => reader.coded (reader.coder.flag mass)) value where
  sound :=
    (sound.conveys_symbol (usable_flagCdf below).roomy (toNat_lt_arity_flagCdf mass value)).sound
  selected :=
    sound.coder.selected_of_symbol (usable_flagCdf below).roomy (toNat_lt_arity_flagCdf mass value)
  reads sync selected := by
    obtain ⟨coder, read, coders⟩ := sync.coders.flag below selected
    rw [read]
    exact ⟨_, rfl, coders, sync.codable, sync.tables_eq, sync.adapts_eq, sync.memories_eq,
      sync.inRange⟩

end TileWriter

/-! ### Elements -/

/-- An accepted value is read from the steps that write it. -/
theorem Element.follows_of_sayable {α : Type} {element : Element α} {value : α}
    (accepted : (element.write value).result = .ok ()) (sayable : element.Sayable value) :
    element.read.Follows (element.write value).items (element.readBack value) := by
  cases element with
  | references site => exact RefPair.restores_write site sayable () accepted
  | candidate mode weights => exact Inter.restores_writeCandidate sayable weights value () accepted
  | restoration site =>
      exact RestorationFilter.restores_write sayable.2 sayable.1 value () accepted
  | strength digits => exact restores_writeStrength sayable.1 sayable.2 () accepted
  | colorMap site room =>
      have restorable : (colorMap site room).Restorable := sayable
      exact Element.restores_write restorable value () accepted
  | _ =>
      refine Element.restores_write ?_ value () accepted
      exact trivial

theorem Element.sameValue_of_sayable {α : Type} {element : Element α} {value : α}
    (accepted : (element.write value).result = .ok ()) (sayable : element.Sayable value) :
    element.SameValue value (element.readBack value) := by
  cases element with
  | colorMap site room =>
      have restorable : (colorMap site room).Restorable := sayable
      exact Element.sameValue_readBack restorable accepted
  | _ => rfl

/-! ### Primitives -/

theorem Primitive.mass_of_check {mass : Nat} (checked : checkMass mass = .ok ()) :
    mass < Cdf.top := by
  unfold checkMass at checked
  split at checked
  next inside => exact inside.2
  · cases checked

/-- What may be coded may be read. -/
theorem Primitive.checkRead_of_check {α : Type} {primitive : Primitive α} {value : α}
    (checked : primitive.check value = .ok ()) : primitive.checkRead = .ok () := by
  cases primitive with
  | flag mass => exact checked
  | symbol cdf =>
      obtain ⟨_, strict, -⟩ := bind_eq_ok.mp checked
      exact strict
  | adapting cdf =>
      obtain ⟨_, codable, -⟩ := bind_eq_ok.mp checked
      exact codable
  | number code =>
      cases code with
      | literal width =>
          change Number.checkLiteral width value = .ok () at checked
          unfold Number.checkLiteral at checked
          split at checked
          · cases checked
          next fits =>
            exact checkSymbol_eq_ok.mpr (Nat.lt_succ_of_le (Nat.le_of_not_lt (not_or.mp fits).1))
      | subexpAround size k reference =>
          obtain ⟨_, reference_lt, -⟩ := bind_eq_ok.mp checked
          exact reference_lt
      | _ => rfl
  | signed => rfl

theorem TileReader.getChecked_eq {α : Type} {primitive : Primitive α} {value : α}
    (checked : primitive.check value = .ok ()) (reader : TileReader) :
    reader.getChecked primitive = reader.get primitive := by
  rw [getChecked, Primitive.checkRead_of_check checked]

/-- A primitive that passes its check is read as its value. -/
theorem Primitive.conveys {α : Type} {primitive : Primitive α} {value : α}
    {tile : TileWriter Payload} (sound : tile.Sound) (checked : primitive.check value = .ok ())
    (inBounds : primitive.InBounds value) :
    tile.Conveys (tile.put primitive value) (·.getChecked primitive) value := by
  simp only [TileReader.getChecked_eq checked]
  cases primitive with
  | flag mass => exact sound.conveys_flag (mass_of_check checked) value
  | symbol cdf =>
      obtain ⟨_, strict, inside⟩ := bind_eq_ok.mp checked
      have usable : cdf.Usable := ⟨(Cdf.checkStrict_eq_ok.mp strict).codable, inBounds⟩
      exact sound.conveys_symbol usable.roomy (checkSymbol_eq_ok.mp inside)
  | adapting cdf =>
      obtain ⟨_, codable, inside⟩ := bind_eq_ok.mp checked
      have usable : cdf.Usable := ⟨Cdf.checkCodable_eq_ok.mp codable, inBounds⟩
      exact sound.conveys_symbol usable.roomy (checkSymbol_eq_ok.mp inside)
  | number code =>
      exact sound.conveys_bits (Number.follows_read (Number.fits_of_check checked inBounds))
  | signed low high k reference =>
      obtain ⟨narrow, of_reference, of_value⟩ := inBounds
      exact sound.conveys_bits (Parse.follows_signedSubexp k narrow of_reference.1 of_reference.2
        of_value.1 of_value.2)

/-! ## Sessions -/

namespace Session

/-- What the session of a writer keeps. -/
structure Ready (session : Session (TileWriter Payload)) : Prop where
  tile : session.tile.Sound
  rows : UsableRows session.rows

/-- A writer's session and a reader's are at the same place. -/
structure InStep (writer : Session (TileWriter Payload)) (payload : List UInt8)
    (reader : Session TileReader) : Prop where
  tiles : InSync writer.tile payload reader.tile
  rows_eq : reader.rows = writer.rows
  usable : UsableRows writer.rows

theorem InStep.ready {writer : Session (TileWriter Payload)} {payload : List UInt8}
    {reader : Session TileReader} (inStep : writer.InStep payload reader) : writer.Ready :=
  ⟨inStep.tiles.sound, inStep.usable⟩

/-- `TileWriter.Conveys` for sessions, and values that are only known to be alike. -/
structure Conveys {α : Type} (before after : Session (TileWriter Payload))
    (read : Session TileReader → Except CodingError α × Session TileReader) (alike : α → Prop) :
    Prop where
  ready : after.Ready
  selected : ∀ {payload}, after.tile.coder.interval.Selected payload →
    before.tile.coder.interval.Selected payload
  reads : ∀ {payload reader}, before.InStep payload reader →
    after.tile.coder.interval.Selected payload →
      ∃ value, (read reader).1 = .ok value ∧ alike value ∧ after.InStep payload (read reader).2

variable {session : Session (TileWriter Payload)} {α : Type}

/-- What a tile conveys, its session does, with the rows as they are. -/
theorem Ready.conveys (ready : session.Ready) {after : TileWriter Payload}
    {read : TileReader → Except CodingError α × TileReader} {value : α} {alike : α → Prop}
    (conveys : session.tile.Conveys after read value) (isAlike : alike value) :
    session.Conveys { session with tile := after }
      (fun reader => Query.keepRows reader (read reader.tile)) alike where
  ready := ⟨conveys.sound, ready.rows⟩
  selected := conveys.selected
  reads inStep selected := by
    obtain ⟨next, result, tiles⟩ := conveys.reads inStep.tiles selected
    rw [result]
    exact ⟨value, rfl, isAlike, tiles, inStep.rows_eq, inStep.usable⟩

theorem Ready.conveys_element (ready : session.Ready) {element : Element α} {value : α}
    (accepted : (element.write value).result = .ok ()) (sayable : element.Sayable value) :
    session.Conveys { session with tile := (session.tile.run (element.write value)).2 }
      (fun reader => Query.keepRows reader (reader.tile.run element.read))
      (element.SameValue value) :=
  ready.conveys (ready.tile.conveys_steps (Element.follows_of_sayable accepted sayable))
    (Element.sameValue_of_sayable accepted sayable)

/-- A symbol of a row of the caller is read with the same row, which adapts on both sides. -/
theorem Ready.conveys_owned (ready : session.Ready) {row value : Nat}
    (row_lt : row < session.rows.length) (inside : value < (session.rows.getD row []).arity) :
    session.Conveys ((Piece.owned row).write session value) ((Piece.owned row).get ·)
      (· = value) := by
  have usable := ready.rows row row_lt
  have conveys := ready.tile.conveys_symbol usable.roomy inside
  have still := ready.rows.set row (usable.adapt session.tile.adapts value)
  refine ⟨⟨conveys.sound, still⟩, conveys.selected, ?_⟩
  intro payload reader inStep selected
  obtain ⟨next, result, tiles⟩ := conveys.reads inStep.tiles selected
  have checked : (session.rows.getD row []).checkCodable = .ok () :=
    Cdf.checkCodable_eq_ok.mpr usable.1
  have adapts : next.adapts = session.tile.adapts := tiles.adapts_eq
  let adapted := (session.rows.getD row []).adapt session.tile.adapts value
  have read : (Piece.owned row).get reader = (.ok value, ⟨session.rows.set row adapted, next⟩) := by
    simp only [Piece.get, TileReader.getCheckedAdapting, TileReader.getChecked, Primitive.checkRead,
      inStep.rows_eq, checked, TileReader.get, result, TileReader.adaptTo, adapts, adapted]
  rw [read]
  exact ⟨value, rfl, rfl, tiles, rfl, still⟩

/-- **A piece conveys the values that it admits.** -/
theorem Ready.conveys_piece (ready : session.Ready) {piece : Piece α} {value : α}
    (admits : piece.Admits session.rows value) :
    session.Conveys (piece.write session value) (piece.get ·) (piece.SameValue value) := by
  cases piece with
  | element coded => exact ready.conveys_element admits.1 admits.2
  | filter choice plane =>
      have sayable : (session.tile.memories.unit choice plane).Sayable value :=
        ⟨admits.1, ready.tile.memories plane⟩
      have conveys := ready.conveys_element (PlaneMemories.accepted_unit _ admits.2) sayable
      refine ⟨conveys.ready, conveys.selected, ?_⟩
      intro payload reader inStep selected
      -- both sides have the same filters to code from
      rw [Piece.get, inStep.tiles.memories_eq]
      exact conveys.reads inStep selected
  | primitive coded => exact ready.conveys (Primitive.conveys ready.tile admits.1 admits.2) rfl
  | owned row => exact ready.conveys_owned admits.1 admits.2

end Session

/-! ## Runs -/

/-- Adaptation keeps the alphabets of all rows. -/
theorem Piece.map_arity_write {σ : Type} [Output σ] {α : Type} (session : Session (TileWriter σ))
    (piece : Piece α) (value : α) :
    (piece.write session value).rows.map Cdf.arity = session.rows.map Cdf.arity := by
  cases piece with
  | owned row => exact map_arity_set_adapt ..
  | _ => rfl

theorem Piece.admits_congr {α : Type} {rows others : List Cdf}
    (same : others.map Cdf.arity = rows.map Cdf.arity) {piece : Piece α} {value : α}
    (admits : piece.Admits rows value) : piece.Admits others value := by
  cases piece with
  | owned row => exact inside_congr same admits
  | _ => exact admits

/-- What may be coded next to each other may be coded one after another. -/
theorem Entry.admits_write {σ : Type} [Output σ] {session : Session (TileWriter σ)}
    {rest : List Entry}
    (entry : Entry) (admits : ∀ next ∈ rest, next.piece.Admits session.rows next.value) :
    ∀ next ∈ rest, next.piece.Admits (entry.write session).rows next.value := by
  intro next member
  exact Piece.admits_congr (Piece.map_arity_write _ _ _) (admits next member)

namespace Session

variable {session : Session (TileWriter Payload)} {entries : List Entry}

theorem Ready.run (ready : session.Ready)
    (admits : ∀ entry ∈ entries, entry.piece.Admits session.rows entry.value) :
    (entries.foldl Entry.write session).Ready := by
  induction entries generalizing session with
  | nil => exact ready
  | cons entry rest ih =>
      obtain ⟨here, later⟩ := List.forall_mem_cons.mp admits
      exact ih (ready.conveys_piece here).ready (Entry.admits_write entry later)

/-- What selects the interval after some entries selects the one before them. -/
theorem Ready.selected_of_run (ready : session.Ready)
    (admits : ∀ entry ∈ entries, entry.piece.Admits session.rows entry.value)
    {payload : List UInt8}
    (selected : (entries.foldl Entry.write session).tile.coder.interval.Selected payload) :
    session.tile.coder.interval.Selected payload := by
  induction entries generalizing session with
  | nil => exact selected
  | cons entry rest ih =>
      obtain ⟨here, later⟩ := List.forall_mem_cons.mp admits
      have conveys := ready.conveys_piece here
      exact conveys.selected (ih conveys.ready (Entry.admits_write entry later) selected)

/-- Sessions at the start of a tile and of its payload are in step. -/
theorem inStep_new {rows : List Cdf} (usable : UsableRows rows) {tables : Tables}
    (codable : tables.Codable) (payload : List UInt8) (adapts : Bool) :
    InStep (Session.write rows tables adapts) payload (.read rows payload tables adapts) :=
  ⟨InSync.new codable payload adapts, rfl, usable⟩

end Session

end TileCoder
