import TileCoder.Frame.Params
import TileCoder.Table.Tables

/-!
The tables that earlier frames have left.
-/

namespace TileCoder

/-- The tables in each slot, as far as it was filled. -/
structure ReferenceSlots where
  saved : Vector (Option Tables) slotCount
  deriving DecidableEq

namespace ReferenceSlots

def empty : ReferenceSlots := ⟨.replicate slotCount none⟩

def get? (slots : ReferenceSlots) (slot : Nat) : Option Tables := slots.saved[slot]?.join

/-- Fills the slots whose digits are set. -/
def refresh (slots : ReferenceSlots) (flags : Nat) (tables : Tables) : ReferenceSlots :=
  ⟨slots.saved.mapIdx fun slot old => if flags.testBit slot then some tables else old⟩

@[simp] theorem get?_empty (slot : Nat) : empty.get? slot = none := by
  simp only [get?, empty, Vector.getElem?_replicate]
  split <;> rfl

theorem get?_refresh (slots : ReferenceSlots) (flags : Nat) (tables : Tables) {slot : Nat}
    (inRange : slot < slotCount) :
    (slots.refresh flags tables).get? slot =
      if flags.testBit slot then some tables else slots.get? slot := by
  simp only [get?, refresh, Vector.getElem?_eq_getElem inRange]
  split <;> simp_all

end ReferenceSlots

end TileCoder
