import TileCoder.Bits
import TileCoder.Block.Reference
import TileCoder.Error

/-!
The fields of a frame that decide where its tables come from and where they go.
-/

namespace TileCoder

open scoped Plain

/-- The number of slots for the tables of earlier frames. -/
def slotCount : Nat := 8

/-- What a frame says about its tables. -/
structure FrameParams where
  /-- The reference whose tables the frame starts from; `noPrimary` for the trained ones. -/
  primary : Nat
  /-- The slot of each reference. -/
  slots : Vector Nat Reference.interCount
  /-- The slots that the frame overwrites, one binary digit for each. -/
  refresh : Nat
  /-- No row adapts. -/
  frozen : Bool
  /-- The frame leaves the tables it started from, and not those of a tile. -/
  leavesStart : Bool
  /-- The tile whose tables the frame leaves. -/
  chosenTile : Nat
  deriving DecidableEq, Repr

namespace FrameParams

/-- The primary reference of a frame that starts from the trained tables. -/
def noPrimary : Nat := 7

/-- A frame that depends on no other and overwrites every slot. -/
def keyFrame : FrameParams :=
  { primary := noPrimary
    slots := #v[0, 1, 2, 3, 4, 5, 6]
    refresh := 2 ^ slotCount - 1
    frozen := false
    leavesStart := false
    chosenTile := 0 }

/-- Whether a header can carry the fields: each is in its range, and a frame whose tables are frozen
leaves those it started from. -/
def IsValid (params : FrameParams) : Prop :=
  params.primary ≤ noPrimary ∧ params.refresh < 2 ^ slotCount ∧
    (∀ slot ∈ params.slots, slot < slotCount) ∧ (params.frozen → params.leavesStart)

instance (params : FrameParams) : Decidable params.IsValid :=
  inferInstanceAs (Decidable (_ ∧ _ ∧ _ ∧ (_ → _)))

/-- Refuses fields that no header can carry. -/
def check (params : FrameParams) : Except CodingError Unit :=
  if params.IsValid then .ok () else .error .invalidElement

/-- The slot that the frame starts from. -/
def primarySlot? (params : FrameParams) : Option Nat := params.slots[params.primary]?

/-- Whether rows adapt to what is coded. -/
def adapts (params : FrameParams) : Bool := !params.frozen

/-- Whether the frame overwrites a slot. -/
def refreshes (params : FrameParams) (slot : Nat) : Bool := params.refresh.testBit slot

theorem check_eq_ok {params : FrameParams} : params.check = .ok () ↔ params.IsValid := by
  unfold check
  split <;> simp_all

theorem primarySlot?_lt {params : FrameParams} (valid : params.IsValid) {slot : Nat}
    (found : params.primarySlot? = some slot) : slot < slotCount :=
  valid.2.2.1 slot (Vector.mem_of_getElem? found)

end FrameParams

end TileCoder
