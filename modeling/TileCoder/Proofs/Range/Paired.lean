import TileCoder.Proofs.Range.Tracking

/-!
# A reader beside a writer

`Paired writer payload reader` says that a reader of a payload is where a writer is. It reads the
symbol or the flag that the writer codes next and is then beside the writer again, if the payload
selects the interval that the writer comes to. A payload that selects the interval after several
symbols selects the one before them (`Writer.Sound.selected_of_foldl`), so that the payload of a
whole run will do for each part of it.

From any other payload the reader reads what some writer codes that it is then beside, unless it comes
upon the end (`Paired.symbol_or_truncated`).
-/

namespace TileCoder.Range

/-- Codes a symbol with the row beside it. -/
def Writer.pair (writer : Writer Payload) (coded : Cdf × Nat) : Writer Payload :=
  writer.symbol coded.1 coded.2

/-- A symbol with a row that it can be coded with. -/
def Coded (coded : Cdf × Nat) : Prop := coded.1.Usable ∧ coded.2 < coded.1.arity

theorem coded_flag {mass : Nat} (below : mass < Cdf.top) (flag : Bool) :
    Coded (flagCdf mass, flag.toNat) :=
  ⟨usable_flagCdf below, toNat_lt_arity_flagCdf mass flag⟩

theorem coded_bit (bit : Bool) : Coded (flagCdf evenOdds, bit.toNat) :=
  coded_flag (by decide) bit

namespace Writer

variable {writer : Writer Payload} {payload : List UInt8} {cdf : Cdf} {value : Nat}

theorem Sound.symbol (sound : writer.Sound) (roomy : cdf.Roomy) (inside : value < cdf.arity) :
    (writer.symbol cdf value).Sound :=
  sound.put (.ofSymbol roomy inside)

theorem interval_symbol (sound : writer.Sound) (roomy : cdf.Roomy) (inside : value < cdf.arity) :
    (writer.symbol cdf value).interval = writer.interval.narrow (.ofSymbol cdf value) :=
  interval_put sound (.ofSymbol roomy inside)

/-- What selects the interval after a symbol selects the one before it. -/
theorem Sound.selected_of_symbol (sound : writer.Sound) (roomy : cdf.Roomy)
    (inside : value < cdf.arity)
    (selected : (writer.symbol cdf value).interval.Selected payload) :
    writer.interval.Selected payload := by
  rw [interval_symbol sound roomy inside] at selected
  exact Interval.selected_of_narrow (.ofSymbol roomy inside) sound.scaled selected

theorem Sound.foldl_pair (sound : writer.Sound) {symbols : List (Cdf × Nat)}
    (usable : ∀ p ∈ symbols, Coded p) : (symbols.foldl Writer.pair writer).Sound :=
  (sound.foldl_symbol symbols usable).1

theorem Sound.selected_of_foldl (sound : writer.Sound) {symbols : List (Cdf × Nat)}
    (usable : ∀ p ∈ symbols, Coded p)
    (selected : (symbols.foldl Writer.pair writer).interval.Selected payload) :
    writer.interval.Selected payload := by
  induction symbols generalizing writer with
  | nil => exact selected
  | cons first rest ih =>
      obtain ⟨here, later⟩ := List.forall_mem_cons.mp usable
      obtain ⟨row, inside⟩ := here
      have after := ih (sound.symbol row.roomy inside) later selected
      exact sound.selected_of_symbol row.roomy inside after

theorem Sound.bit (sound : writer.Sound) (bit : Bool) : (writer.bit bit).Sound :=
  sound.symbol (coded_bit bit).1.roomy (coded_bit bit).2

theorem Sound.selected_of_bits (sound : writer.Sound) {bits : List Bool}
    (selected : (bits.foldl Writer.bit writer).interval.Selected payload) :
    writer.interval.Selected payload := by
  induction bits generalizing writer with
  | nil => exact selected
  | cons bit rest ih =>
      rw [List.foldl_cons] at selected
      have after : (writer.bit bit).interval.Selected payload := ih (sound.bit bit) selected
      exact sound.selected_of_symbol (coded_bit bit).1.roomy (coded_bit bit).2 after

end Writer

/-- A reader of a payload is where a writer is. -/
structure Paired (writer : Writer Payload) (payload : List UInt8) (reader : Reader) : Prop where
  sound : writer.Sound
  tracks : reader.Tracks payload writer.interval

namespace Paired

variable {writer : Writer Payload} {payload : List UInt8} {reader : Reader}

theorem new (payload : List UInt8) : Paired .new payload (.ofBytes payload) where
  sound := Writer.sound_new
  tracks := by
    rw [Writer.interval_new]
    exact Reader.tracks_ofBytes payload

/-- The reader reads the symbol that the writer codes. -/
theorem symbol (paired : Paired writer payload reader) {cdf : Cdf} (roomy : cdf.Roomy)
    {value : Nat} (inside : value < cdf.arity)
    (selected : (writer.symbol cdf value).interval.Selected payload) :
    ∃ next, reader.symbol cdf = (.ok value, next) ∧
      Paired (writer.symbol cdf value) payload next := by
  have moved := Writer.interval_symbol paired.sound roomy inside
  rw [moved] at selected
  obtain ⟨next, read, tracks⟩ := paired.tracks.symbol roomy inside selected
  refine ⟨next, read, paired.sound.symbol roomy inside, ?_⟩
  rw [moved]
  exact tracks

/-- The reader reads the flag that the writer codes. -/
theorem flag (paired : Paired writer payload reader) {mass : Nat} (below : mass < Cdf.top)
    {value : Bool} (selected : (writer.flag mass value).interval.Selected payload) :
    ∃ next, reader.flag mass = (.ok value, next) ∧
      Paired (writer.flag mass value) payload next := by
  obtain ⟨next, read, next_paired⟩ :=
    paired.symbol (usable_flagCdf below).roomy (toNat_lt_arity_flagCdf mass value) selected
  refine ⟨next, ?_, next_paired⟩
  rw [paired.tracks.sound.flag_eq below, read]
  cases value <;> rfl

theorem bit (paired : Paired writer payload reader) {value : Bool}
    (selected : (writer.bit value).interval.Selected payload) :
    ∃ next, reader.bit = (.ok value, next) ∧ Paired (writer.bit value) payload next :=
  paired.flag (by decide) selected

/-- Whatever the payload, the reader reads some symbol and is beside a writer that codes it, unless it
comes upon the end. -/
theorem symbol_or_truncated (paired : Paired writer payload reader) {cdf : Cdf} (roomy : cdf.Roomy) :
    (∃ next, reader.symbol cdf = (.error .truncatedStream, next)) ∨
      ∃ value next, value < cdf.arity ∧ reader.symbol cdf = (.ok value, next) ∧
        Paired (writer.symbol cdf value) payload next ∧
        (writer.interval.Ahead payload →
          (writer.symbol cdf value).interval.Selected payload) := by
  refine (paired.tracks.symbol_or_truncated roomy).imp_right ?_
  rintro ⟨value, next, inside, read, tracks, selected⟩
  rw [← Writer.interval_symbol paired.sound roomy inside] at tracks selected
  exact ⟨value, next, inside, read, ⟨paired.sound.symbol roomy inside, tracks⟩, selected⟩

theorem flag_or_truncated (paired : Paired writer payload reader) {mass : Nat}
    (below : mass < Cdf.top) :
    (∃ next, reader.flag mass = (.error .truncatedStream, next)) ∨
      ∃ value next, reader.flag mass = (.ok value, next) ∧
        Paired (writer.flag mass value) payload next ∧
        (writer.interval.Ahead payload →
          (writer.flag mass value).interval.Selected payload) := by
  rw [paired.tracks.sound.flag_eq below]
  rcases paired.symbol_or_truncated (usable_flagCdf below).roomy with ⟨next, read⟩ | taken
  · rw [read]
    exact .inl ⟨next, rfl⟩
  · obtain ⟨symbol, next, inside, read, paired, selected⟩ := taken
    obtain ⟨value, rfl⟩ : ∃ value : Bool, value.toNat = symbol := by
      have : symbol = 0 ∨ symbol = 1 := by
        have two : symbol < 2 := inside
        omega
      rcases this with rfl | rfl
      · exact ⟨false, rfl⟩
      · exact ⟨true, rfl⟩
    rw [read]
    refine .inr ⟨value, next, ?_, paired, selected⟩
    cases value <;> rfl

theorem bit_or_truncated (paired : Paired writer payload reader) :
    (∃ next, reader.bit = (.error .truncatedStream, next)) ∨
      ∃ value next, reader.bit = (.ok value, next) ∧ Paired (writer.bit value) payload next ∧
        (writer.interval.Ahead payload → (writer.bit value).interval.Selected payload) :=
  paired.flag_or_truncated (by decide)

end Paired

end TileCoder.Range
