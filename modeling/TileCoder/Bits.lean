/-!
Binary notation, most significant digit first.

`Bits.toNat_ofNat` says that a number which fits its width is read back from its digits.
-/

namespace TileCoder

namespace Plain

/-! Powers and sums of numbers without the classes that they belong to elsewhere. -/

scoped instance (priority := high) powNat : Pow Nat Nat := instPowNat

scoped instance (priority := high) zeroNat : Zero Nat := ⟨0⟩

end Plain

open scoped Plain

/-- The number of binary digits of `n`; zero has none. -/
def bitLength (n : Nat) : Nat := if n = 0 then 0 else n.log2 + 1

/-- The size of a machine word: values of integer codes lie below it. -/
def wordSize : Nat := 4294967296

/-- The size of the words that count bytes and entries. -/
def addressSpace : Nat := 18446744073709551616

theorem wordSize_eq : wordSize = 2 ^ (32 : Nat) := rfl

/-- What a machine word keeps of a number. -/
def word (n : Int) : Nat := (n % wordSize).toNat

theorem word_cast (n : Int) : (word n : Int) = n % wordSize :=
  Int.toNat_of_nonneg (Int.emod_nonneg n (by decide))

theorem word_lt (n : Int) : word n < wordSize := by
  have cast := word_cast n
  unfold wordSize at *
  omega

/-- A word keeps all of a number that fits. -/
theorem word_of_fits {n : Int} (nonneg : 0 ≤ n) (fits : n < wordSize) : (word n : Int) = n := by
  rw [word_cast, Int.emod_eq_of_lt nonneg fits]

/-- Of what words keep, a difference keeps all that matters. -/
theorem word_sub_word (a b : Int) : word (word a - word b) = word (a - b) := by
  have minuend := word_cast a
  have subtrahend := word_cast b
  have outer := word_cast (word a - word b)
  have inner := word_cast (a - b)
  unfold wordSize at *
  omega

/-- Nothing becomes larger than it is, unless it was below zero. -/
theorem word_le {n : Int} (nonneg : 0 ≤ n) : (word n : Int) ≤ n := by
  have cast := word_cast n
  unfold wordSize at cast
  omega

namespace Bits

/-- The `width` low binary digits of `n`. -/
def ofNat : (width n : Nat) → List Bool
  | 0, _ => []
  | width + 1, n => n.testBit width :: ofNat width n

/-- Continues the number `n` by one binary digit. -/
def append (n : Nat) (bit : Bool) : Nat := 2 * n + bit.toNat

/-- The number that binary digits stand for. -/
def toNat (bits : List Bool) : Nat := bits.foldl append 0

/-- The digits of whole bytes. -/
def ofBytes (bytes : List UInt8) : List Bool := bytes.flatMap fun byte => ofNat 8 byte.toNat

/-- Fills up the last byte with zeros. -/
def pad (bits : List Bool) : List Bool :=
  bits ++ List.replicate ((8 - bits.length % 8) % 8) false

/-- Packs digits into bytes; zeros fill the last one. -/
def toBytes : List Bool → List UInt8
  | [] => []
  | a :: b :: c :: d :: e :: f :: g :: h :: rest =>
      UInt8.ofNat (toNat [a, b, c, d, e, f, g, h]) :: toBytes rest
  | rest => [UInt8.ofNat (toNat (rest ++ List.replicate (8 - rest.length) false))]

@[simp] theorem length_ofNat (width n : Nat) : (ofNat width n).length = width := by
  induction width with
  | zero => rfl
  | succ width ih => simp [ofNat, ih]

theorem foldl_append_ofNat (width n start : Nat) :
    (ofNat width n).foldl append start = start * 2 ^ width + n % 2 ^ width := by
  induction width generalizing start with
  | zero => simp [ofNat, Nat.mod_one]
  | succ width ih =>
      rw [ofNat, List.foldl_cons, ih, append, Nat.toNat_testBit, Nat.mod_pow_succ, Nat.pow_succ]
      grind

/-- Digits stand for the number they were taken from, up to the width. -/
theorem toNat_ofNat_mod (width n : Nat) : toNat (ofNat width n) = n % 2 ^ width := by
  simp [toNat, foldl_append_ofNat]

theorem toNat_ofNat {width n : Nat} (fits : n < 2 ^ width) : toNat (ofNat width n) = n := by
  rw [toNat_ofNat_mod, Nat.mod_eq_of_lt fits]

end Bits

end TileCoder
