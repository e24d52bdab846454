import TileCoder.Header.Field
import TileCoder.Proofs.Recoding.Paths

/-!
# Fields written and read

`Carries write read digits value` says of a part of a header that its writer puts out some digits, and
that its reader, where it finds them, reads a value from them and leaves all that follows. Parts that
come one after the other carry what each of them carries (`Carries.bind`).

`FieldReader.Spells` goes the other way: whatever a reader reads, it has read from the digits of that
value. What was read in several steps is taken apart step by step (`Spells.of_bind`).
-/

namespace TileCoder.Header

open TileCoder.Code
open scoped Plain

/-! ## Readers -/

namespace FieldReader

variable {α β : Type} {read : FieldReader α} {next : α → FieldReader β} {bits rest : List Bool}

theorem bind_eq (read : FieldReader α) (next : α → FieldReader β) (bits : List Bool) :
    (read >>= next) bits = read bits >>= fun (value, rest) => next value rest := rfl

theorem bind_of_ok {value : α} (here : read bits = .ok (value, rest)) (next : α → FieldReader β) :
    (read >>= next) bits = next value rest := by
  rw [bind_eq, here]
  rfl

/-- What is read in two steps was read in the first and then in the second. -/
theorem of_bind {result : β} (both : (read >>= next) bits = .ok (result, rest)) :
    ∃ value middle, read bits = .ok (value, middle) ∧ next value middle = .ok (result, rest) := by
  rw [bind_eq, bind_eq_ok] at both
  obtain ⟨⟨value, middle⟩, first, second⟩ := both
  exact ⟨value, middle, first, second⟩

theorem field_append {width : Nat} (narrow : width ≤ maxFieldWidth) (value : Nat)
    (rest : List Bool) :
    field width (Bits.ofNat width value ++ rest) = .ok (value % 2 ^ width, rest) := by
  have front : (Bits.ofNat width value ++ rest).take width = Bits.ofNat width value :=
    List.take_left' (Bits.length_ofNat width value)
  have back : (Bits.ofNat width value ++ rest).drop width = rest :=
    List.drop_left' (Bits.length_ofNat width value)
  unfold field
  rw [if_neg (Nat.not_lt.mpr narrow)]
  dsimp only
  rw [front, back, Bits.length_ofNat, if_neg (Nat.lt_irrefl width), Bits.toNat_ofNat_mod]

/-! ### What was read -/

/-- Whatever the reader reads is valid, and was read from its own digits. -/
def Spells (read : FieldReader α) (valid : α → Prop) (digits : α → List Bool) : Prop :=
  ∀ ⦃bits : List Bool⦄ ⦃value : α⦄ ⦃rest : List Bool⦄, read bits = .ok (value, rest) →
    valid value ∧ bits = digits value ++ rest

section Spells

variable {valid : α → Prop} {digits : α → List Bool} {result : β}

theorem Spells.of_bind (first : read.Spells valid digits)
    (both : (read >>= next) bits = .ok (result, rest)) :
    ∃ value middle, valid value ∧ bits = digits value ++ middle ∧
      next value middle = .ok (result, rest) := by
  obtain ⟨value, middle, here, there⟩ := FieldReader.of_bind both
  obtain ⟨holds, rfl⟩ := first here
  exact ⟨value, middle, holds, rfl, there⟩

/-- What is understood has no digits. -/
theorem Spells.of_unless {understood : Bool} {default : α} (first : read.Spells valid digits)
    (both : (if understood then pure default >>= next else read >>= next) bits =
      .ok (result, rest)) :
    ∃ value middle, (if understood then value = default else valid value) ∧
      bits = (if understood then [] else digits value) ++ middle ∧
        next value middle = .ok (result, rest) := by
  cases understood with
  | true => exact ⟨default, bits, rfl, rfl, both⟩
  | false => exact first.of_bind both

theorem spells_bit : bit.Spells (fun _ => True) fun b => [b] := by
  intro bits b rest here
  cases bits with
  | nil => cases here
  | cons first others =>
      cases here
      exact ⟨trivial, rfl⟩

theorem spells_field (width : Nat) : (field width).Spells (· < 2 ^ width) (Bits.ofNat width) := by
  intro bits value rest here
  unfold field at here
  split at here
  · cases here
  dsimp only at here
  split at here
  · cases here
  next enough =>
    cases here
    have length : (bits.take width).length = width := by
      have := List.length_take_le width bits
      omega
    have below := Parse.toNat_lt (bits.take width)
    have own := Parse.ofNat_toNat (bits.take width)
    rw [length] at below own
    rw [own, List.take_append_drop]
    exact ⟨below, rfl⟩

end Spells

end FieldReader

/-! ## Writers -/

namespace FieldWriter

theorem field_of_lt {width value : Nat} (narrow : width ≤ maxFieldWidth) (fits : value < 2 ^ width) :
    field width value = .all (Bits.ofNat width value) := by
  unfold field
  rw [if_neg (Nat.not_lt.mpr narrow), if_neg (Nat.not_le.mpr fits)]

theorem all_bind_all (front back : List Bool) :
    ((Emit.all front : FieldWriter Unit) >>= fun _ => Emit.all back) = .all (front ++ back) := rfl

end FieldWriter

/-! ## Both sides -/

/-- A writer puts out these digits, and a reader reads a value from them and from nothing else. -/
structure Carries {α : Type} (write : FieldWriter Unit) (read : FieldReader α)
    (digits : List Bool) (value : α) : Prop where
  written : write = .all digits
  readBack : ∀ rest, read (digits ++ rest) = .ok (value, rest)

section Carries

variable {α β : Type} {write : FieldWriter Unit} {read : FieldReader α} {front back : List Bool}
  {value : α} {result : β}

theorem Carries.bind {last : Unit → FieldWriter Unit} {follow : α → FieldReader β}
    (first : Carries write read front value) (second : Carries (last ()) (follow value) back result) :
    Carries (write >>= last) (read >>= follow) (front ++ back) result where
  written := by
    rw [first.written, Emit.bind_of_ok (Emit.result_all front), second.written]
    rfl
  readBack rest := by
    rw [List.append_assoc, FieldReader.bind_of_ok (first.readBack (back ++ rest))]
    exact second.readBack rest

theorem Carries.map (first : Carries write read front value) (change : α → β) :
    Carries write (read >>= fun value => pure (change value)) front (change value) where
  written := first.written
  readBack rest := FieldReader.bind_of_ok (first.readBack rest) _

/-- What is understood is neither written nor read. -/
theorem Carries.unless {understood : Bool} {default : α} {last : Unit → FieldWriter Unit}
    {follow : α → FieldReader β} (first : understood = false → Carries write read front value)
    (second : Carries (last ()) (follow (if understood then default else value)) back result) :
    Carries (if !understood then write >>= last else last ())
      (if understood then pure default >>= follow else read >>= follow)
      ((if understood then [] else front) ++ back) result := by
  cases understood with
  | true => exact second
  | false => exact (first rfl).bind second

theorem carries_pure (value : α) : Carries (pure ()) (pure value) [] value := ⟨rfl, fun _ => rfl⟩

theorem carries_bit (b : Bool) : Carries (FieldWriter.bit b) FieldReader.bit [b] b :=
  ⟨rfl, fun _ => rfl⟩

theorem carries_field (width : Nat) {number : Nat} (narrow : width ≤ maxFieldWidth)
    (fits : number < 2 ^ width) :
    Carries (FieldWriter.field width number) (FieldReader.field width) (Bits.ofNat width number)
      number where
  written := FieldWriter.field_of_lt narrow fits
  readBack rest := by rw [FieldReader.field_append narrow, Nat.mod_eq_of_lt fits]

end Carries

end TileCoder.Header
