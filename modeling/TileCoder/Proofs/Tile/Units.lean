import TileCoder.Proofs.Tile.Pieces

/-!
# Restoration units

The units of a tile are written one after another, each filter from what its plane remembers of the
ones before. A reader that is told the same choices and planes gets the filters back, and remembers
the same after each of them (`readBack_of_open`), as long as no choice is reserved. A unit of a reserved
choice is written all the same if it has no filter, as if it might have any; but no reader takes it
(`read_reserved`), and none gets past it.
-/

namespace TileCoder

open TileCoder.Range

/-- A unit: the filters that it may have, its plane and its filter. -/
structure RestorationUnit where
  choice : RestorationChoice
  plane : Plane
  filter : RestorationFilter
  deriving DecidableEq, Repr

namespace RestorationUnit

variable {unit : RestorationUnit} {units : List RestorationUnit} {writer : TileWriter Payload}
  {reader : TileReader} {payload : List UInt8}

/-- Whether the unit may have its filter. -/
def IsCodable (unit : RestorationUnit) : Prop :=
  RestorationFilter.IsCodable unit.choice unit.plane unit.filter

instance (unit : RestorationUnit) : Decidable unit.IsCodable :=
  inferInstanceAs (Decidable (RestorationFilter.IsCodable ..))

/-- Writes the filter of the unit. -/
def write (tile : TileWriter Payload) (unit : RestorationUnit) :
    Except CodingError Unit × TileWriter Payload :=
  tile.run ((tile.memories.unit unit.choice unit.plane).write unit.filter)

/-- The tile after the unit. -/
def next (tile : TileWriter Payload) (unit : RestorationUnit) : TileWriter Payload :=
  (unit.write tile).2

/-- Reads the filter of the unit. -/
def read (tile : TileReader) (unit : RestorationUnit) :
    Except CodingError RestorationFilter × TileReader :=
  tile.run (tile.memories.unit unit.choice unit.plane).read

/-- All units are taken, one after another. -/
def Accepted : List RestorationUnit → TileWriter Payload → Prop
  | [], _ => True
  | unit :: rest, writer =>
      (unit.write writer).1 = .ok () ∧ Accepted rest (unit.next writer)

/-- Every filter is read, with the same memories in range on both sides after it. -/
def ReadBack : List RestorationUnit → TileWriter Payload → TileReader → Prop
  | [], _, _ => True
  | unit :: rest, writer, reader =>
      (unit.read reader).1 = .ok unit.filter ∧
        (unit.read reader).2.memories = (unit.next writer).memories ∧
          (unit.next writer).memories.InRange ∧
            ReadBack rest (unit.next writer) (unit.read reader).2

/-! ## What is taken -/

theorem write_eq_ok : (unit.write writer).1 = .ok () ↔ unit.IsCodable :=
  RestorationFilter.accepted_iff

theorem accepted_iff : Accepted units writer ↔ ∀ unit ∈ units, unit.IsCodable := by
  induction units generalizing writer with
  | nil => simp [Accepted]
  | cons unit rest ih => rw [Accepted, write_eq_ok, ih, List.forall_mem_cons]

/-- Under a reserved choice a unit can only be without a filter. -/
theorem filter_of_reserved (reserved : unit.choice = .reserved) (codable : unit.IsCodable) :
    unit.filter = .none := by
  obtain ⟨choice, plane, filter⟩ := unit
  obtain rfl : choice = .reserved := reserved
  cases filter with
  | none => rfl
  | wiener | selfGuided => simp [IsCodable, RestorationFilter.IsCodable] at codable

/-- A reader refuses a reserved choice, and has read nothing. -/
theorem read_reserved (reserved : unit.choice = .reserved) (reader : TileReader) :
    unit.read reader = (.error .invalidElement, reader) := by
  obtain ⟨choice, plane, filter⟩ := unit
  obtain rfl : choice = .reserved := reserved
  rfl

/-- No filter under a reserved choice is the kind of a unit that has none, and nothing else. -/
theorem items_reserved (reserved : unit.choice = .reserved) (codable : unit.IsCodable)
    (memories : PlaneMemories) :
    ((memories.unit unit.choice unit.plane).write unit.filter).items =
      [.symbol Table.restoration.only 0] := by
  rw [filter_of_reserved reserved codable, reserved]
  rfl

/-! ## One unit -/

theorem follows_unit (sound : writer.Sound) (open_choice : unit.choice ≠ .reserved)
    (codable : unit.IsCodable) :
    let coded := writer.memories.unit unit.choice unit.plane
    coded.read.Follows (coded.write unit.filter).items unit.filter :=
  RestorationFilter.restores_write (sound.memories unit.plane) open_choice unit.filter ()
    (RestorationFilter.accepted_iff.mpr codable)

theorem fits_unit (sound : writer.Sound) (codable : unit.IsCodable) :
    ∀ step ∈ ((writer.memories.unit unit.choice unit.plane).write unit.filter).items,
      step.Fits := by
  by_cases reserved : unit.choice = .reserved
  · rw [items_reserved reserved codable]
    have inside : 0 < Table.restoration.symbols := by decide
    exact List.forall_mem_singleton.mpr inside
  · exact (follows_unit sound reserved codable).fits

theorem sound_next (sound : writer.Sound) (codable : unit.IsCodable) :
    (unit.next writer).Sound :=
  sound.run (fits_unit sound codable)

/-- A unit that is not reserved is read back, and leaves both sides in step. -/
theorem read_unit (sync : InSync writer payload reader) (open_choice : unit.choice ≠ .reserved)
    (codable : unit.IsCodable)
    (selected : (unit.next writer).coder.interval.Selected payload) :
    ∃ after, unit.read reader = (.ok unit.filter, after) ∧
      InSync (unit.next writer) payload after := by
  rw [read, sync.memories_eq]
  exact sync.run (follows_unit sync.sound open_choice codable) selected

/-! ## Units one after another -/

theorem sound_foldl_next (sound : writer.Sound) (codable : ∀ unit ∈ units, unit.IsCodable) :
    (units.foldl next writer).Sound := by
  induction units generalizing writer with
  | nil => exact sound
  | cons unit rest ih =>
      obtain ⟨here, later⟩ := List.forall_mem_cons.mp codable
      exact ih (sound_next sound here) later

/-- What selects the interval after some units selects the one before them. -/
theorem selected_of_foldl_next (sound : writer.Sound) (codable : ∀ unit ∈ units, unit.IsCodable)
    (selected : (units.foldl next writer).coder.interval.Selected payload) :
    writer.coder.interval.Selected payload := by
  induction units generalizing writer with
  | nil => exact selected
  | cons unit rest ih =>
      obtain ⟨here, later⟩ := List.forall_mem_cons.mp codable
      exact sound.selected_of_run (fits_unit sound here) (ih (sound_next sound here) later selected)

theorem readBack_of_open (sync : InSync writer payload reader)
    (open_choices : ∀ unit ∈ units, unit.choice ≠ .reserved)
    (codable : ∀ unit ∈ units, unit.IsCodable)
    (selected : (units.foldl next writer).coder.interval.Selected payload) :
    ReadBack units writer reader := by
  induction units generalizing writer reader with
  | nil => trivial
  | cons unit rest ih =>
      obtain ⟨open_here, open_later⟩ := List.forall_mem_cons.mp open_choices
      obtain ⟨here, later⟩ := List.forall_mem_cons.mp codable
      have sound_after := sound_next sync.sound here
      obtain ⟨after, read_eq, next_sync⟩ :=
        read_unit sync open_here here (selected_of_foldl_next sound_after later selected)
      rw [ReadBack, read_eq]
      exact ⟨rfl, next_sync.memories_eq, next_sync.inRange,
        ih next_sync open_later later selected⟩

/-- Nobody reads past a reserved choice. -/
theorem open_of_readBack (readBack : ReadBack units writer reader) :
    ∀ unit ∈ units, unit.choice ≠ .reserved := by
  induction units generalizing writer reader with
  | nil => exact List.forall_mem_nil _
  | cons unit rest ih =>
      obtain ⟨read_eq, -, -, later⟩ := readBack
      refine List.forall_mem_cons.mpr ⟨?_, ih later⟩
      intro reserved
      rw [read_reserved reserved] at read_eq
      cases read_eq

/-- **Units are read back up to the first of a reserved choice.** Whatever units are taken, all of
`front` are read from the payload, with the same memories on both sides after each, just if none of
them has a reserved choice. A unit that has one is without a filter, and every reader refuses it. What
the writer remembers of the planes is in range all along. -/
theorem readBack_iff (tables : Tables) (codable : tables.Codable) (adapts : Bool)
    (front back : List RestorationUnit)
    (accepted : Accepted (front ++ back) (.new tables adapts)) :
    let start : TileWriter Payload := .new tables adapts
    let payload := ((front ++ back).foldl next start).coder.finish
    (ReadBack front start (.new payload tables adapts) ↔
        ∀ unit ∈ front, unit.choice ≠ .reserved) ∧
      (front.foldl next start).memories.InRange ∧
      ∀ unit ∈ front, unit.choice = .reserved →
        unit.filter = .none ∧ ∀ reader, unit.read reader = (.error .invalidElement, reader) := by
  intro start payload
  have sound : start.Sound := TileWriter.sound_new codable adapts
  have may := accepted_iff.mp accepted
  obtain ⟨front_may, back_may⟩ := List.forall_mem_append.mp may
  have front_sound := sound_foldl_next sound front_may
  have selected : (front.foldl next start).coder.interval.Selected payload := by
    refine selected_of_foldl_next front_sound back_may ?_
    rw [← List.foldl_append]
    exact (sound_foldl_next sound may).coder.selected_finish
  refine ⟨⟨open_of_readBack, ?_⟩, front_sound.memories, ?_⟩
  · intro open_choices
    exact readBack_of_open (InSync.new codable payload adapts) open_choices front_may selected
  · intro unit member reserved
    exact ⟨filter_of_reserved reserved (front_may unit member), read_reserved reserved⟩

/-- Units of all planes and kinds, the last one of a reserved choice. -/
theorem readBack_iff_mixed :
    let front : List RestorationUnit :=
      [⟨.switchable, .luma, .wiener ⟨-5, 8, 46⟩ ⟨10, -23, -17⟩⟩,
        ⟨.wiener, .red, .wiener ⟨0, 8, 46⟩ ⟨0, -23, -17⟩⟩,
        ⟨.selfGuided, .luma, .selfGuided 14 31 95⟩,
        ⟨.none, .blue, .none⟩,
        ⟨.switchable, .luma, .selfGuided 10 0 95⟩,
        ⟨.selfGuided, .luma, .selfGuided 3 (-96) (-32)⟩,
        ⟨.wiener, .luma, .none⟩]
    let back : List RestorationUnit := [⟨.reserved, .luma, .none⟩]
    let start : TileWriter Payload := .new .initial true
    let payload := ((front ++ back).foldl next start).coder.finish
    Tables.initial.Codable ∧ Accepted (front ++ back) start ∧
      ReadBack front start (.new payload .initial true) := by
  intro front back start payload
  have accepted : Accepted (front ++ back) start := accepted_iff.mpr (by decide)
  have readBack := readBack_iff .initial Tables.codable_initial true front back accepted
  exact ⟨Tables.codable_initial, accepted, readBack.1.mpr (by decide)⟩

/-- A unit of a reserved choice is taken and is not read back. -/
theorem not_readBack_reserved :
    let units : List RestorationUnit := [⟨.reserved, .luma, .none⟩]
    let start : TileWriter Payload := .new .initial true
    let reader : TileReader := .new (units.foldl next start).coder.finish .initial true
    Accepted units start ∧ ¬ReadBack units start reader := by
  intro units start reader
  refine ⟨accepted_iff.mpr (by decide), ?_⟩
  intro readBack
  exact open_of_readBack readBack ⟨.reserved, .luma, .none⟩ (List.mem_singleton_self _) rfl

end RestorationUnit

end TileCoder
