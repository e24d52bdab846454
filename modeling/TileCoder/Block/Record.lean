/-!
Records along the edges of blocks.

A tile keeps a row of entries above the blocks and a column to their left; a block that is coded
overwrites the entries along it.
-/

namespace TileCoder

/-- Overwrites `count` entries of a record from `start` on, as far as it reaches. -/
def overwrite {α : Type} (start count : Nat) (value : α) (entries : List α) : List α :=
  entries.mapIdx fun i entry => if start ≤ i ∧ i < start + count then value else entry

@[simp] theorem length_overwrite {α : Type} (start count : Nat) (value : α) (entries : List α) :
    (overwrite start count value entries).length = entries.length := by
  simp [overwrite]

end TileCoder
