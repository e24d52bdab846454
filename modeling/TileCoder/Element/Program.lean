import TileCoder.Block.Restoration
import TileCoder.Code.Source
import TileCoder.Emit
import TileCoder.Error
import TileCoder.Table.Slot

/-!
What a syntax element does to a tile.

To write an element is to plan some steps: a `Plan` lists them, and says at the end whether the
value could be expressed. To read one is to follow a `Parse`, a finite tree that asks for one
symbol after another. Neither looks at the tables themselves, so the same element can be planned,
followed and compared without a coder.
-/

namespace TileCoder

/-- One thing that a tile codes. -/
inductive Step where
  /-- A symbol, with a row that adapts to it. -/
  | symbol (slot : Slot) (value : Nat)
  /-- A flag with the joint mass that some symbols have in a row, which does not adapt. -/
  | gathered (slot : Slot) (symbols : List Nat) (flag : Bool)
  | bit (bit : Bool)
  /-- The restoration filter that a plane has from now on. -/
  | remember (plane : Plane) (memory : RestorationMemory)
  deriving DecidableEq, Repr

/-- The steps that write an element, and whether its value can be written. -/
abbrev Plan := Emit Step CodingError

namespace Plan

def symbol (slot : Slot) (value : Nat) : Plan Unit := .one (.symbol slot value)

/-- Codes a flag with a row of two symbols. -/
def flag (slot : Slot) (flag : Bool) : Plan Unit := symbol slot flag.toNat

def bits (bits : List Bool) : Plan Unit := .all (bits.map .bit)

/-- Codes a number as `width` bare bits. -/
def literal (width value : Nat) : Plan Unit := bits (Bits.ofNat width value)

end Plan

/-- A reader of an element: its value, an error, or what to do with what is read next. -/
inductive Parse (α : Type) where
  | done (value : α)
  | fail (error : CodingError)
  | symbol (slot : Slot) (next : Nat → Parse α)
  | gathered (slot : Slot) (symbols : List Nat) (next : Bool → Parse α)
  | bit (next : Bool → Parse α)
  | remember (plane : Plane) (memory : RestorationMemory) (next : Parse α)

namespace Parse

variable {α β : Type}

protected def bind : Parse α → (α → Parse β) → Parse β
  | done value, next => next value
  | fail error, _ => fail error
  | symbol slot rest, next => symbol slot fun value => (rest value).bind next
  | gathered slot symbols rest, next => gathered slot symbols fun flag => (rest flag).bind next
  | bit rest, next => bit fun b => (rest b).bind next
  | remember plane memory rest, next => remember plane memory (rest.bind next)

instance : Monad Parse where
  pure := done
  bind := Parse.bind

instance : MonadLift (Except CodingError) Parse where
  monadLift
    | .ok value => done value
    | .error error => fail error

def readSymbol (slot : Slot) : Parse Nat := symbol slot done

/-- Reads a flag with a row of two symbols. -/
def readFlag (slot : Slot) : Parse Bool := symbol slot fun value => done (value ≠ 0)

/-- Reads a flag with the joint mass of some symbols of a row. -/
def readGathered (slot : Slot) (symbols : List Nat) : Parse Bool := gathered slot symbols done

/-- Reads a number of `width` bare bits, appended to the digits of `start`. -/
def readField : (width start : Nat) → Parse Nat
  | 0, start => done start
  | width + 1, start => bit fun b => readField width (Bits.append start b)

instance : Code.BitSource Parse := ⟨bit done, fun width => readField width 0⟩

/-- Reads a number as `width` bare bits. -/
def literal (width : Nat) : Parse Nat := readField width 0

/-- Saves the filter of a plane. -/
def save (plane : Plane) (memory : RestorationMemory) : Parse Unit :=
  remember plane memory (done ())

/-- The value of a number, or the error that no value has it. -/
def ofOption (value : Option α) : Parse α :=
  match value with
  | some value => done value
  | none => fail .corruptElement

protected theorem bind_assoc {γ : Type} (first : Parse α) (next : α → Parse β)
    (last : β → Parse γ) :
    (first.bind next).bind last = first.bind fun value => (next value).bind last := by
  induction first with
  | done => rfl
  | fail => rfl
  | symbol slot rest ih => simp only [Parse.bind, ih]
  | gathered slot symbols rest ih => simp only [Parse.bind, ih]
  | bit rest ih => simp only [Parse.bind, ih]
  | remember plane memory rest ih => simp only [Parse.bind, ih]

@[simp] theorem pure_bind (value : α) (next : α → Parse β) :
    (pure value : Parse α) >>= next = next value := rfl

end Parse

end TileCoder
