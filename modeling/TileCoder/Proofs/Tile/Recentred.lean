import TileCoder.Proofs.Code.Overflow
import TileCoder.Proofs.Frame.InStep
import TileCoder.Proofs.Tile.Numbers

/-!
# Numbers around any reference

A tile takes every number below a size that is a word, around every reference below that size, and it
says nothing if the reference is too large to be doubled. `RoundTrips` is what its caller expects: the
number is taken, and it is the one that is read from the payload. `roundTrips_iff` says for which
references and values that is so, and that no number leaves the words on the way just if the reference
is in the lower half of them.
-/

namespace TileCoder

open TileCoder.Range

/-- A reader that only changes what another one reads goes where that one goes. -/
theorem TileReader.run_map {α β : Type} (tile : TileReader) (read : Parse α) (change : α → β) :
    tile.run (read >>= fun value => pure (change value)) =
      ((tile.run read).1.map change, (tile.run read).2) := by
  induction read generalizing tile with
  | done value => rfl
  | fail error => rfl
  | symbol slot next ih =>
      show tile.run (.symbol slot _) = _
      rw [TileReader.run, TileReader.run]
      split
      · rfl
      next value moved outcome => exact ih value moved
  | gathered slot symbols next ih =>
      show tile.run (.gathered slot symbols _) = _
      rw [TileReader.run, TileReader.run]
      split
      · rfl
      next value moved outcome => exact ih _ moved
  | bit next ih =>
      show tile.run (.bit _) = _
      rw [TileReader.run, TileReader.run]
      split
      · rfl
      next value moved outcome => exact ih value moved
  | remember plane memory next ih => exact ih _

/-- A frame of which every tile starts with the trained tables. -/
def trainedFrame : Frame := ⟨.keyFrame, .initial, none⟩

namespace Number

/-- A tile takes a value for the number, and the same value is read from the payload. -/
def RoundTrips (number : Number) (frame : Frame) (id value : Nat) : Prop :=
  let (answer, tile) := (frame.writeTile id).put (.number number) value
  answer = .ok () ∧
    ∃ payload outcome, tile.finish = .ok (payload, outcome) ∧
      ((frame.readTile payload).getChecked (.number number)).1 = .ok value

section Around

variable {frame : Frame} {size k reference value : Nat}

/-- What is made of a number that passes its check: its digits are the payload, and read from it. -/
theorem roundTrips_of_check {number : Number} (unlimited : frame.budget = none) (id : Nat)
    (checked : number.check value = .ok ()) :
    number.RoundTrips frame id value ↔
      ((frame.readTile ((number.bits value).foldl Writer.bit .new).finish).run number.read).1 =
        .ok value := by
  have accepted : (Primitive.number number).check value = .ok () := checked
  have finish_eq : FrameTile.finish { frame.writeTile id with
        writer := (frame.writeTile id).writer.put (.number number) value } =
      .ok (((number.bits value).foldl Writer.bit .new).finish, ⟨id, frame.start⟩) :=
    FrameTile.finish_eq unlimited
  unfold RoundTrips
  rw [FrameTile.put_of_check unlimited accepted]
  dsimp only
  rw [finish_eq]
  constructor
  · rintro ⟨-, payload, outcome, finished, read⟩
    obtain ⟨rfl, -⟩ := Prod.mk.inj (Except.ok.inj finished)
    rw [TileReader.getChecked_eq accepted] at read
    exact read
  · intro read
    refine ⟨rfl, _, _, rfl, ?_⟩
    rw [TileReader.getChecked_eq accepted]
    exact read

/-- Where the code of a number lies below the size, what is read is the number with that code. -/
theorem run_readSubexpAround (frame : Frame) (k : Nat)
    (code_lt : Code.recenterBelow size reference value < size) :
    ((frame.readTile ((Code.subexpAround size k reference value).foldl Writer.bit .new).finish).run
        (Code.readSubexpAround size k reference)).1 =
      .ok (Code.unrecenterBelow size reference (Code.recenterBelow size reference value)) := by
  obtain ⟨last, delivers⟩ :=
    Reader.exists_after?_finish (Code.subexpAround size k reference value)
  have takes := (Parse.follows_recentred k code_lt).takes
  rw [TileReader.run_of_takes takes delivers]

/-- A number that is near a large reference and below what is left of its double is not read from any
payload. -/
theorem run_readSubexpAround_ne (lost : ¬Code.Recovered reference value)
    (near : reference ≤ value + 2 ^ 31) (reference_lt : reference < size) (word : size ≤ wordSize)
    (tile : TileReader) : (tile.run (Code.readSubexpAround size k reference)).1 ≠ .ok value := by
  intro read
  unfold Code.readSubexpAround at read
  rw [TileReader.run_map] at read
  dsimp only at read
  cases outcome : (tile.run (Code.readSubexpBelow size k)).1 with
  | error error =>
      rw [outcome] at read
      cases read
  | ok code =>
      obtain ⟨width, settles⟩ := Parse.exists_settles_bin size k 0 0
      obtain ⟨bits, takes⟩ := settles.takes_of_run outcome
      obtain ⟨-, code_lt, -⟩ := Parse.takes_bin (Nat.zero_lt_of_lt reference_lt) takes
      rw [outcome] at read
      have same : Code.unrecenterBelow size reference code = value := Except.ok.inj read
      exact Code.unrecenterBelow_ne_of_lost lost near reference_lt word code_lt same

/-- What is coded of a number that is not got back is read as another number, if at all. -/
theorem run_readSubexpAround_lost (lost : ¬Code.Recovered reference value)
    (reference_lt : reference < size) (word : size ≤ wordSize) :
    ((frame.readTile ((Code.subexpAround size k reference value).foldl Writer.bit .new).finish).run
        (Code.readSubexpAround size k reference)).1 ≠ .ok value := by
  by_cases near : reference ≤ value + 2 ^ 31
  · exact run_readSubexpAround_ne lost near reference_lt word _
  · obtain ⟨code_lt, other⟩ :=
      Code.unrecenterBelow_of_lost lost (Nat.lt_of_not_le near) reference_lt word
    rw [run_readSubexpAround frame k code_lt, other]
    simp

theorem check_around (reference_lt : reference < size) (value_lt : value < size) :
    (subexpAround size k reference).check value = .ok () :=
  bind_eq_ok.mpr ⟨(), checkSymbol_eq_ok.mpr reference_lt, checkSymbol_eq_ok.mpr value_lt⟩

/-- **Which numbers are got back around a reference.** A tile without a limit takes any number below
the size and it is read from the payload, if and only if the reference lies in the lower half of the
words, or the number does not, or the number lies above what is left when the double of the reference
wraps. And just the references in the lower half of the words can be recentred around, there and back,
without a number that is not a word. -/
theorem roundTrips_around_iff (unlimited : frame.budget = none) (id k : Nat)
    (word : size ≤ wordSize) (reference_lt : reference < size) (value_lt : value < size) :
    ((subexpAround size k reference).RoundTrips frame id value ↔
        reference < 2 ^ 31 ∨ 2 * reference < wordSize + value ∨ 2 ^ 31 ≤ value) ∧
      (Code.Exact size reference value ↔ reference < 2 ^ 31) := by
  refine ⟨?_, Code.exact_iff reference_lt value_lt⟩
  rw [roundTrips_of_check unlimited id (check_around reference_lt value_lt)]
  constructor
  · intro read
    by_contra lost
    exact run_readSubexpAround_lost lost reference_lt word read
  · intro recovered
    have code_lt := Code.Recovered.recenterBelow_lt recovered reference_lt value_lt word
    have read := run_readSubexpAround frame k code_lt
    rw [Code.Recovered.unrecenterBelow_eq recovered reference_lt value_lt word] at read
    exact read

/-- Around the largest reference of all, the largest number. -/
theorem roundTrips_around_largest :
    (subexpAround 4294967295 3 4294967294).RoundTrips trainedFrame 0 4294967294 :=
  (roundTrips_around_iff rfl 0 3 (by decide) (by decide) (by decide)).1.mpr (by decide)

/-- **A reference just above half of the words.** Zero is coded around it, with the code of the number
below it, and half of the words is read. -/
theorem not_roundTrips_around_half :
    (subexpAround 4294967295 3 2147483649).check 0 = .ok () ∧
      ((trainedFrame.writeTile 0).put (.number (subexpAround 4294967295 3 2147483649)) 0).1 = .ok () ∧
      ((trainedFrame.readTile
          ((Code.subexpAround 4294967295 3 2147483649 0).foldl Writer.bit .new).finish).run
        (Code.readSubexpAround 4294967295 3 2147483649)).1 = .ok 2147483648 ∧
      ¬(subexpAround 4294967295 3 2147483649).RoundTrips trainedFrame 0 0 := by
  have checked : (subexpAround 4294967295 3 2147483649).check 0 = .ok () :=
    check_around (by decide) (by decide)
  have recentred : Code.recenterBelow 4294967295 2147483649 0 = 1 := by decide
  have read := run_readSubexpAround trainedFrame 3
    (show Code.recenterBelow 4294967295 2147483649 0 < 4294967295 by decide)
  rw [recentred, show Code.unrecenterBelow 4294967295 2147483649 1 = 2147483648 by decide] at read
  refine ⟨checked, ?_, read, ?_⟩
  · have accepted : (Primitive.number (subexpAround 4294967295 3 2147483649)).check 0 = .ok () :=
      checked
    rw [FrameTile.put_of_check rfl accepted]
  · rw [roundTrips_of_check rfl 0 checked]
    exact run_readSubexpAround_lost (by decide) (by decide) (by decide)

end Around

end Number

end TileCoder
