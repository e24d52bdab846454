import TileCoder.Code.Source
import TileCoder.Emit

/-!
Plain bit fields, as headers use them.

Fields are written and read most significant bit first. Writing refuses a value that does not fit;
what was written before stays written.
-/

namespace TileCoder.Header

open TileCoder.Code
open scoped Plain

/-- Why a field cannot be written or read. -/
inductive FieldError where
  /-- A value outside of its code. -/
  | outsideCode
  /-- A field that is too wide, or a value too large for its field. -/
  | doesNotFit
  /-- The data ends within the field. -/
  | endOfData
  deriving DecidableEq, Repr, Inhabited

def maxFieldWidth : Nat := 32

abbrev FieldWriter := Emit Bool FieldError

namespace FieldWriter

def bit (b : Bool) : FieldWriter Unit := .one b

/-- Writes a number of `width` digits. -/
def field (width value : Nat) : FieldWriter Unit :=
  if maxFieldWidth < width then throw .doesNotFit
  else if 2 ^ width ≤ value then throw .doesNotFit
  else .all (Bits.ofNat width value)

def bytes (data : List UInt8) : FieldWriter Unit := .all (Bits.ofBytes data)

/-- The `count` bytes of a number, the lowest first. -/
def lowBytesFirst : (count value : Nat) → List UInt8
  | 0, _ => []
  | count + 1, value => UInt8.ofNat value :: lowBytesFirst count (value / 256)

/-- Writes a number of at most eight bytes, the lowest byte first. -/
def littleEndian (count value : Nat) : FieldWriter Unit :=
  if 8 < count then throw .doesNotFit
  else if 256 ^ count ≤ value then throw .doesNotFit
  else bytes (lowBytesFirst count value)

/-- Writes a number below `size`. -/
def uniform (size value : Nat) : FieldWriter Unit :=
  if size ≤ 1 then pure ()
  else if size ≤ value then throw .outsideCode
  else
    let (width, short) := uniformSplit size
    if value < short then field (width - 1) value
    else do
      field (width - 1) (short + (value - short) / 2)
      bit ((value - short) % 2 = 1)

/-- Writes what is left of a number once its bin is known. -/
def tail : BinTail → FieldWriter Unit
  | .uniform size value => uniform size value
  | .digits width value => field width value

/-- Writes a number below `size`, in bins. -/
def subexpBelow (size k value : Nat) : FieldWriter Unit := do
  let (path, left) := binFrom size k 0 0 value
  Emit.all path
  tail left

/-- Writes a number below `size`, given a reference. -/
def subexpAround (size k reference value : Nat) : FieldWriter Unit :=
  if size ≤ reference ∨ size ≤ value then throw .outsideCode
  else subexpBelow size k (recenterBelow size reference value)

/-- The number of values from `1 - size` up to `size - 1`. -/
def signedSpan (size : Nat) : Nat := twice size - 1

/-- The distance of the least such value from zero. -/
def signedOffset (size : Nat) : Int := signedWord size - 1

/-- Writes a signed number whose magnitude is below `size`, given a reference. -/
def signedSubexp (size k : Nat) (reference value : Int) : FieldWriter Unit :=
  subexpAround (signedSpan size) k
    (distance (-signedOffset size) reference) (distance (-signedOffset size) value)

/-- Writes a number of any size, its digit count first: as many zeros as digits follow the leading
one. -/
def gamma (value : Nat) : FieldWriter Unit :=
  if value = wordSize - 1 then field 32 0
  else do
    let zeros := (value + 1).log2
    field zeros 0
    field (zeros + 1) (value + 1)

/-- Writes a number below `size`, shorter near a reference. -/
def bilevel (size span reference value : Nat) : FieldWriter Unit :=
  if size ≤ 1 then pure ()
  else if ¬WindowFits size span reference ∨ size ≤ value then throw .outsideCode
  else do
    let (inside, size, value) := windowTail size span reference value
    bit inside
    uniform size value

end FieldWriter

abbrev FieldReader := StateT (List Bool) (Except FieldError)

namespace FieldReader

def bit : FieldReader Bool
  | [] => .error .endOfData
  | b :: rest => .ok (b, rest)

/-- Reads a number of `width` digits. -/
def field (width : Nat) : FieldReader Nat := fun bits =>
  if maxFieldWidth < width then .error .doesNotFit
  else
    let digits := bits.take width
    if digits.length < width then .error .endOfData
    else .ok (Bits.toNat digits, bits.drop width)

instance : BitSource FieldReader := ⟨bit, field⟩

/-- Skips to the next whole byte. -/
def align : FieldReader Unit := fun bits => .ok ((), bits.drop (bits.length % 8))

/-- Reads a number of `count` bytes, the lowest byte first. -/
def littleEndian : (count : Nat) → FieldReader Nat
  | 0 => return 0
  | count + 1 => do
      let low ← field 8
      let high ← littleEndian count
      return low + 256 * high

/-- Reads a signed number whose magnitude is below `size`, given a reference. -/
def signedSubexp (size k : Nat) (reference : Int) : FieldReader Int := do
  let offset := FieldWriter.signedOffset size
  let code ← readSubexpAround (FieldWriter.signedSpan size) k (distance (-offset) reference)
  return signedWord code - offset

/-- Reads a number below `size`, shorter near a reference. -/
def bilevel (size span reference : Nat) : FieldReader Nat := do
  if size ≤ 1 then return 0
  if ¬WindowFits size span reference then throw .outsideCode
  let inside ← bit
  readWindowTail size span reference inside

end FieldReader

end TileCoder.Header
