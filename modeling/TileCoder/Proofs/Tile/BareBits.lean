import TileCoder.Proofs.Range.Paired
import TileCoder.Proofs.Recoding.Paths
import TileCoder.Tile.Reader

/-!
# Bare bits

What a number asks of a range coder is bare bits only, one call after the other. `Reader.after?` names
the bits that a coder delivers, and with them the coder that is left. A reader that comes to a value
through some bits comes to it in every tile whose coder delivers them (`TileReader.run_of_takes`),
and leaves the coder where those bits leave it.

`Parse.Settles read width` says that a reader comes to a value whatever bits it is given, and that
`width` of them are enough.
-/

namespace TileCoder

open TileCoder.Range

namespace Range.Reader

/-- The coder that is left after these bits, if they are what it delivers next. -/
def after? (reader : Reader) : List Bool → Option Reader
  | [] => some reader
  | bit :: rest =>
      match reader.bit with
      | (.ok delivered, next) => if delivered = bit then next.after? rest else none
      | (.error _, _) => none

variable {reader last : Reader}

theorem after?_cons {bit : Bool} {rest : List Bool} :
    reader.after? (bit :: rest) = some last ↔
      ∃ next, reader.bit = (.ok bit, next) ∧ next.after? rest = some last := by
  rw [after?]
  obtain ⟨delivered, next⟩ := reader.bit
  cases delivered with
  | error error => simp
  | ok delivered =>
      by_cases same : delivered = bit
      · simp [same]
      · simp [same]

/-- A coder that delivers some bits delivers those in front, and then the others. -/
theorem after?_append {front back : List Bool} (delivers : reader.after? (front ++ back) = some last) :
    ∃ middle, reader.after? front = some middle ∧ middle.after? back = some last := by
  induction front generalizing reader with
  | nil => exact ⟨reader, rfl, delivers⟩
  | cons bit rest ih =>
      obtain ⟨next, here, later⟩ := after?_cons.mp delivers
      obtain ⟨middle, front_delivered, back_delivered⟩ := ih later
      exact ⟨middle, after?_cons.mpr ⟨next, here, front_delivered⟩, back_delivered⟩

/-- A reader beside a writer delivers the bits that the writer codes. -/
theorem exists_after?_of_paired {writer : Writer Payload} {payload : List UInt8}
    (paired : Paired writer payload reader) {bits : List Bool}
    (selected : (bits.foldl Writer.bit writer).interval.Selected payload) :
    ∃ last, reader.after? bits = some last := by
  induction bits generalizing writer reader with
  | nil => exact ⟨reader, rfl⟩
  | cons bit rest ih =>
      rw [List.foldl_cons] at selected
      have here := (paired.sound.bit bit).selected_of_bits selected
      obtain ⟨next, read, next_paired⟩ := paired.bit here
      obtain ⟨last, delivers⟩ := ih next_paired selected
      exact ⟨last, after?_cons.mpr ⟨next, read, delivers⟩⟩

/-- **Any bits are what a coder delivers from some payload**, which is that of a writer of them. -/
theorem exists_after?_finish (bits : List Bool) :
    ∃ last, (ofBytes (bits.foldl Writer.bit .new).finish).after? bits = some last := by
  have sound : (bits.foldl Writer.bit (.new : Writer Payload)).Sound :=
    List.foldlRecOn bits Writer.bit Writer.sound_new fun _ sound b _ => sound.bit b
  exact exists_after?_of_paired (Paired.new _) sound.selected_finish

end Range.Reader

/-- **A value is read where a coder delivers its bits**, and no bit more is asked for. -/
theorem TileReader.run_of_takes {α : Type} {read : Parse α} {bits : List Bool} {value : α}
    (takes : read.Takes (bits.map .bit) value) {tile : TileReader} {last : Reader}
    (delivers : tile.coder.after? bits = some last) :
    tile.run read = (.ok value, { tile with coder := last }) := by
  generalize asked : bits.map Step.bit = steps at takes
  induction takes generalizing bits tile with
  | done value =>
      obtain rfl := List.map_eq_nil_iff.mp asked
      obtain rfl := Option.some.inj delivers
      rfl
  | @bit b next steps result tail ih =>
      obtain ⟨first, rest, rfl, first_eq, rest_eq⟩ := List.map_eq_cons_iff.mp asked
      obtain rfl := Step.bit.inj first_eq
      obtain ⟨coder, here, later⟩ := Reader.after?_cons.mp delivers
      rw [TileReader.run, TileReader.bit, here]
      have delivers_rest : { tile with coder }.coder.after? rest = some last := later
      exact ih delivers_rest rest_eq
  | symbol | gathered | remember =>
      -- none of these is a bare bit
      obtain ⟨first, rest, -, first_eq, -⟩ := List.map_eq_cons_iff.mp asked
      cases first_eq

/-! ## Readers that always come to a value -/

namespace Parse

variable {α β : Type}

/-- A reader comes to a value within `width` bits, whatever they are. -/
def Settles : Parse α → (width : Nat) → Prop
  | done _, _ => True
  | bit next, width => 0 < width ∧ ∀ b, (next b).Settles (width - 1)
  | fail _, _ | symbol .., _ | gathered .., _ | remember .., _ => False

theorem Settles.mono {read : Parse α} {m n : Nat} (settles : read.Settles m) (le : m ≤ n) :
    read.Settles n := by
  induction read generalizing m n with
  | done value => exact trivial
  | bit next ih =>
      obtain ⟨some, each⟩ := settles
      refine ⟨by omega, ?_⟩
      intro b
      exact ih b (each b) (by omega)
  | fail | symbol | gathered | remember => exact settles.elim

/-- What comes next only has to settle on the values that can be read first. -/
theorem Settles.bind {read : Parse α} {next : α → Parse β} {m n : Nat} (first : read.Settles m)
    (rest : ∀ steps value, read.Takes steps value → (next value).Settles n) :
    (read >>= next).Settles (m + n) := by
  induction read generalizing m with
  | done value =>
      have settles : (next value).Settles n := rest [] value (.done value)
      exact settles.mono (Nat.le_add_left _ _)
  | bit after ih =>
      obtain ⟨some, each⟩ := first
      refine ⟨by omega, ?_⟩
      intro b
      have settles := ih b (each b) fun steps value takes => rest (.bit b :: steps) value (.bit takes)
      exact settles.mono (by omega)
  | fail | symbol | gathered | remember => exact first.elim

theorem settles_pure (value : α) (width : Nat) : (pure value : Parse α).Settles width := trivial

theorem settles_bit : (Code.bit : Parse Bool).Settles 1 := ⟨Nat.one_pos, fun _ => trivial⟩

theorem settles_field (width : Nat) : (Code.field width : Parse Nat).Settles width := by
  show (readField width 0).Settles width
  generalize 0 = start
  induction width generalizing start with
  | zero => exact trivial
  | succ width ih =>
      refine ⟨Nat.succ_pos width, ?_⟩
      intro b
      exact ih _

/-- A reader that settles comes to a value through the bits in front of any that are enough. -/
theorem Settles.takes {read : Parse α} {width : Nat} (settles : read.Settles width)
    {bits : List Bool} (enough : width ≤ bits.length) :
    ∃ value front back, bits = front ++ back ∧ read.Takes (front.map .bit) value := by
  induction read generalizing width bits with
  | done value => exact ⟨value, [], bits, rfl, .done value⟩
  | bit next ih =>
      obtain ⟨some, each⟩ := settles
      cases bits with
      | nil =>
          rw [List.length_nil] at enough
          omega
      | cons b rest =>
          rw [List.length_cons] at enough
          have left : width - 1 ≤ rest.length := by omega
          obtain ⟨value, front, back, rfl, takes⟩ := ih b (each b) left
          exact ⟨value, b :: front, back, rfl, .bit takes⟩
  | fail | symbol | gathered | remember => exact settles.elim

theorem Settles.map {read : Parse α} {width : Nat} (settles : read.Settles width)
    (change : α → β) : (read >>= fun value => pure (change value)).Settles width :=
  settles.bind fun _ _ _ => settles_pure _ 0

/-- A reader that settles, where it comes to a value, has taken bits that lead to it. -/
theorem Settles.takes_of_run {read : Parse α} {width : Nat} (settles : read.Settles width)
    {tile : TileReader} {value : α} (ran : (tile.run read).1 = .ok value) :
    ∃ bits : List Bool, read.Takes (bits.map .bit) value := by
  induction read generalizing width tile with
  | done other =>
      obtain rfl : other = value := Except.ok.inj ran
      exact ⟨[], .done other⟩
  | bit next ih =>
      rw [TileReader.run] at ran
      split at ran
      next error moved outcome => cases ran
      next b moved outcome =>
        obtain ⟨bits, takes⟩ := ih b (settles.2 b) ran
        exact ⟨b :: bits, .bit takes⟩
  | fail | symbol | gathered | remember => exact settles.elim

end Parse

end TileCoder
