import Mathlib.Tactic
import TileCoder.Header.TileGroup

/-!
# Tile groups

Joining payloads to a group and cutting a group into payloads undo each other. What is cut is
described piece by piece (`takeSize_eq_ok`, `takeTile_eq_ok`), and so is what is joined
(`sizeField_eq_ok`, `joinTiles_eq_ok`); piece by piece the descriptions agree, so that a body is cut
into payloads exactly if they are joined to it (`splitTiles_eq_ok`). `minSizeBytes` is always wide
enough (`lt_pow_minSizeBytes`).
-/

namespace TileCoder.Header

@[simp] theorem FieldWriter.length_lowBytesFirst (count value : Nat) :
    (lowBytesFirst count value).length = count := by
  induction count generalizing value with
  | zero => rfl
  | succ count ih => rw [lowBytesFirst, List.length_cons, ih]

namespace TileGroup

open FieldWriter

/-! ## Size fields -/

theorem numberOfBytes_cons (byte : UInt8) (rest : List UInt8) :
    numberOfBytes (byte :: rest) = byte.toNat + 256 * numberOfBytes rest := rfl

theorem numberOfBytes_lt (bytes : List UInt8) : numberOfBytes bytes < 256 ^ bytes.length := by
  induction bytes with
  | nil => exact Nat.one_pos
  | cons byte rest ih =>
      have low : byte.toNat < 256 := byte.toNat_lt
      rw [numberOfBytes_cons, List.length_cons, Nat.pow_succ]
      omega

theorem numberOfBytes_lowBytesFirst {count value : Nat} (fits : value < 256 ^ count) :
    numberOfBytes (lowBytesFirst count value) = value := by
  induction count generalizing value with
  | zero =>
      rw [Nat.pow_zero] at fits
      exact (Nat.lt_one_iff.mp fits).symm
  | succ count ih =>
      rw [Nat.pow_succ] at fits
      rw [lowBytesFirst, numberOfBytes_cons, ih (by omega), UInt8.toNat_ofNat']
      omega

/-- Bytes are determined by the number that they stand for. -/
theorem lowBytesFirst_numberOfBytes (bytes : List UInt8) :
    lowBytesFirst bytes.length (numberOfBytes bytes) = bytes := by
  induction bytes with
  | nil => rfl
  | cons byte rest ih =>
      have low : byte.toNat < 256 := byte.toNat_lt
      have high : (byte.toNat + 256 * numberOfBytes rest) / 256 = numberOfBytes rest := by omega
      rw [List.length_cons, numberOfBytes_cons, lowBytesFirst, high, ih]
      congr 1
      apply UInt8.toNat_inj.mp
      rw [UInt8.toNat_ofNat']
      omega

section Pieces

variable {sizeBytes size : Nat} {tile data rest field : List UInt8}

/-- A payload has a size field if it is small enough for one. -/
theorem sizeField_of_lt (fits : tile.length - 1 < 256 ^ sizeBytes) :
    sizeField sizeBytes tile = .ok (lowBytesFirst sizeBytes (tile.length - 1)) :=
  if_neg (Nat.not_le.mpr fits)

/-- The size field of a payload is the one whose bytes stand for the payload's length. -/
theorem sizeField_eq_ok (filled : tile ≠ []) :
    sizeField sizeBytes tile = .ok field ↔
      field.length = sizeBytes ∧ numberOfBytes field + 1 = tile.length := by
  have positive := List.length_pos_of_ne_nil filled
  constructor
  · intro written
    by_cases fits : tile.length - 1 < 256 ^ sizeBytes
    · rw [sizeField_of_lt fits] at written
      obtain rfl := Except.ok.inj written
      rw [length_lowBytesFirst, numberOfBytes_lowBytesFirst fits]
      exact ⟨rfl, Nat.sub_add_cancel positive⟩
    · rw [sizeField, if_pos (Nat.not_lt.mp fits)] at written
      cases written
  · rintro ⟨rfl, same⟩
    have number : tile.length - 1 = numberOfBytes field := by omega
    have fits := numberOfBytes_lt field
    rw [sizeField_of_lt (number ▸ fits), number, lowBytesFirst_numberOfBytes]

/-- A size is cut off where a size field stands in front. -/
theorem takeSize_eq_ok :
    takeSize sizeBytes data = .ok (size, rest) ↔
      ∃ field, data = field ++ rest ∧ field.length = sizeBytes ∧
        numberOfBytes field + 1 = size := by
  unfold takeSize
  constructor
  · intro taken
    split at taken
    · cases taken
    next long =>
      obtain ⟨rfl, rfl⟩ := Prod.mk.inj (Except.ok.inj taken)
      exact ⟨data.take sizeBytes, (List.take_append_drop _ _).symm,
        List.length_take_of_le (Nat.not_lt.mp long), rfl⟩
  · rintro ⟨field, rfl, rfl, rfl⟩
    rw [if_neg (by simp), List.take_left, List.drop_left]

/-- A payload is cut off where as many bytes stand in front, and at least one. -/
theorem takeTile_eq_ok :
    takeTile size data = .ok (tile, rest) ↔ data = tile ++ rest ∧ tile ≠ [] ∧ tile.length = size := by
  unfold takeTile
  constructor
  · intro taken
    split at taken
    · cases taken
    next enough =>
      rw [List.splitAt_eq] at taken
      obtain ⟨rfl, rfl⟩ := Prod.mk.inj (Except.ok.inj taken)
      have length : (data.take size).length = size := List.length_take_of_le (by omega)
      refine ⟨(List.take_append_drop _ _).symm, ?_, length⟩
      apply List.ne_nil_of_length_pos
      omega
  · rintro ⟨rfl, filled, rfl⟩
    have positive := List.length_pos_of_ne_nil filled
    have enough : ¬(tile.length = 0 ∨ (tile ++ rest).length < tile.length) := by
      rw [List.length_append]
      omega
    rw [if_neg enough, List.splitAt_eq, List.take_left, List.drop_left]

end Pieces

/-! ## Groups -/

section Groups

variable {sizeBytes count : Nat} {tile body data : List UInt8} {tiles others : List (List UInt8)}

theorem checkNonempty_eq_ok {checked : Unit} : checkNonempty tile = .ok checked ↔ tile ≠ [] := by
  unfold checkNonempty
  cases tile <;> simp

/-- The last payload is the whole of what is left. -/
theorem joinTiles_last_eq_ok : joinTiles sizeBytes [tile] = .ok data ↔ tile ≠ [] ∧ tile = data := by
  simp only [joinTiles, bind_eq_ok, checkNonempty_eq_ok]
  constructor
  · rintro ⟨-, filled, same⟩
    exact ⟨filled, Except.ok.inj same⟩
  · rintro ⟨filled, rfl⟩
    exact ⟨(), filled, rfl⟩

/-- Any other payload stands behind its size. -/
theorem joinTiles_eq_ok (more : others ≠ []) :
    joinTiles sizeBytes (tile :: others) = .ok data ↔
      ∃ field body, data = field ++ (tile ++ body) ∧ tile ≠ [] ∧ field.length = sizeBytes ∧
        numberOfBytes field + 1 = tile.length ∧ joinTiles sizeBytes others = .ok body := by
  obtain ⟨next, others, rfl⟩ := List.exists_cons_of_ne_nil more
  rw [joinTiles]
  · simp only [bind_eq_ok, checkNonempty_eq_ok]
    constructor
    · rintro ⟨-, filled, field, written, body, joined, same⟩
      obtain ⟨length, number⟩ := (sizeField_eq_ok filled).mp written
      obtain rfl := Except.ok.inj same
      exact ⟨field, body, List.append_assoc _ _ _, filled, length, number, joined⟩
    · rintro ⟨field, body, rfl, filled, length, number, joined⟩
      refine ⟨(), filled, field, (sizeField_eq_ok filled).mpr ⟨length, number⟩, body, joined, ?_⟩
      rw [List.append_assoc]
      rfl
  · exact List.cons_ne_nil _ _

/-- A body is cut into payloads exactly if they are joined to it. -/
theorem splitTiles_eq_ok :
    splitTiles sizeBytes (count + 1) data = .ok tiles ↔
      tiles.length = count + 1 ∧ joinTiles sizeBytes tiles = .ok data := by
  induction count generalizing data tiles with
  | zero =>
      simp only [splitTiles, bind_eq_ok, Prod.exists, takeTile_eq_ok]
      constructor
      · rintro ⟨last, rest, ⟨same, filled, length⟩, one⟩
        obtain rfl := Except.ok.inj one
        have nothing : rest = [] := by
          rw [same, List.length_append] at length
          exact List.eq_nil_of_length_eq_zero (by omega)
        rw [nothing, List.append_nil] at same
        exact ⟨rfl, joinTiles_last_eq_ok.mpr ⟨filled, same.symm⟩⟩
      · rintro ⟨one, joined⟩
        obtain ⟨last, rfl⟩ := List.length_eq_one_iff.mp one
        obtain ⟨filled, rfl⟩ := joinTiles_last_eq_ok.mp joined
        exact ⟨last, [], ⟨(List.append_nil _).symm, filled, rfl⟩, rfl⟩
  | succ count ih =>
      simp only [splitTiles, bind_eq_ok, Prod.exists, takeSize_eq_ok, takeTile_eq_ok, ih]
      constructor
      · rintro ⟨size, _, ⟨field, rfl, length, number⟩, tile, body, ⟨rfl, filled, rfl⟩, others,
          ⟨count_eq, joined⟩, same⟩
        obtain rfl := Except.ok.inj same
        have more : others ≠ [] := List.ne_nil_of_length_pos (by omega)
        refine ⟨by rw [List.length_cons, count_eq], (joinTiles_eq_ok more).mpr ?_⟩
        exact ⟨field, body, rfl, filled, length, number, joined⟩
      · rintro ⟨count_eq, joined⟩
        obtain ⟨tile, others, rfl⟩ := List.exists_cons_of_length_eq_add_one count_eq
        rw [List.length_cons, Nat.add_right_cancel_iff] at count_eq
        have more : others ≠ [] := List.ne_nil_of_length_pos (by omega)
        obtain ⟨field, body, rfl, filled, length, number, joined⟩ := (joinTiles_eq_ok more).mp joined
        exact ⟨tile.length, tile ++ body, ⟨field, rfl, length, number⟩, tile, body,
          ⟨rfl, filled, rfl⟩, others, ⟨count_eq, joined⟩, rfl⟩

theorem read_eq_ok :
    read data (count + 1) sizeBytes = .ok tiles ↔
      tiles.length = count + 1 ∧ write tiles sizeBytes = .ok data := by
  simp only [read, write, bind_eq_ok, splitTiles_eq_ok]
  tauto

end Groups

/-! ## Wide enough fields -/

theorem le_foldl_max (sizes : List Nat) (start : Nat) :
    start ≤ sizes.foldl max start ∧ ∀ size ∈ sizes, size ≤ sizes.foldl max start := by
  induction sizes generalizing start with
  | nil => simp
  | cons first rest ih =>
      obtain ⟨above, others⟩ := ih (max start first)
      rw [List.foldl_cons]
      refine ⟨(le_max_left _ _).trans above, List.forall_mem_cons.mpr ⟨?_, others⟩⟩
      exact (le_max_right _ _).trans above

section MinSizeBytes

variable {tiles : List (List UInt8)} {tile : List UInt8}

/-- Four bytes are the most that are needed. -/
theorem isFieldSize_minSizeBytes (tiles : List (List UInt8)) :
    TileLayout.IsFieldSize (minSizeBytes tiles) := by
  unfold minSizeBytes TileLayout.IsFieldSize TileLayout.maxSizeBytes
  dsimp only
  split_ifs <;> decide

/-- No size field of these bytes is too small for a payload. -/
theorem lt_pow_minSizeBytes (small : ∀ tile ∈ tiles, tile.length ≤ 2 ^ 32) (among : tile ∈ tiles) :
    tile.length - 1 < 256 ^ minSizeBytes tiles := by
  have largest := (le_foldl_max (tiles.map fun tile => tile.length - 1) 0).2 _
    (List.mem_map_of_mem among)
  have four := small tile among
  unfold minSizeBytes
  dsimp only
  split_ifs <;> omega

/-- Payloads that are not empty can be joined if every size fits its field. -/
theorem exists_joinTiles {sizeBytes : Nat}
    (fit : ∀ tile ∈ tiles, tile ≠ [] ∧ tile.length - 1 < 256 ^ sizeBytes) :
    ∃ body, joinTiles sizeBytes tiles = .ok body := by
  induction tiles with
  | nil => exact ⟨[], rfl⟩
  | cons tile others ih =>
      obtain ⟨⟨filled, here⟩, later⟩ := List.forall_mem_cons.mp fit
      rcases List.eq_nil_or_concat others with rfl | ⟨_, _, rfl⟩
      · exact ⟨tile, joinTiles_last_eq_ok.mpr ⟨filled, rfl⟩⟩
      · obtain ⟨body, joined⟩ := ih later
        have written := (sizeField_eq_ok filled).mp (sizeField_of_lt here)
        exact ⟨_, (joinTiles_eq_ok (by simp)).mpr
          ⟨_, body, rfl, filled, written.1, written.2, joined⟩⟩

end MinSizeBytes

/-- **Cutting a group undoes joining it, and joining undoes cutting.** Whatever the width of the size
fields, a body is cut into payloads exactly if it is what they are joined to, and there are as many of
them as asked for. With fields of `minSizeBytes` any payloads of up to `2 ^ 32` bytes can be joined, as
long as none is empty. -/
theorem read_iff_write :
    (∀ (sizeBytes count : Nat) (data : List UInt8) (tiles : List (List UInt8)),
      read data (count + 1) sizeBytes = .ok tiles ↔
        tiles.length = count + 1 ∧ write tiles sizeBytes = .ok data) ∧
      ∀ tiles : List (List UInt8), (∀ tile ∈ tiles, tile ≠ [] ∧ tile.length ≤ 2 ^ 32) →
        ∃ body, write tiles (minSizeBytes tiles) = .ok body := by
  refine ⟨fun _ _ _ _ => read_eq_ok, ?_⟩
  intro tiles each
  have fit : ∀ tile ∈ tiles, tile ≠ [] ∧ tile.length - 1 < 256 ^ minSizeBytes tiles := by
    intro tile among
    exact ⟨(each tile among).1, lt_pow_minSizeBytes (fun tile among => (each tile among).2) among⟩
  obtain ⟨body, joined⟩ := exists_joinTiles fit
  refine ⟨body, bind_eq_ok.mpr ⟨(), ?_, joined⟩⟩
  exact if_pos (isFieldSize_minSizeBytes tiles)

/-- Three payloads, the first of 300 bytes: fields of two bytes are enough, and the three are got
back. -/
theorem read_iff_write_three :
    ∃ body, write [List.replicate 300 1, [2], [3, 4]] 2 = .ok body ∧
      read body 3 2 = .ok [List.replicate 300 1, [2], [3, 4]] := by
  obtain ⟨read_iff, writable⟩ := read_iff_write
  obtain ⟨body, written⟩ := writable [List.replicate 300 1, [2], [3, 4]] (by decide +kernel)
  have two : minSizeBytes [List.replicate 300 1, [2], [3, 4]] = 2 := by decide +kernel
  rw [two] at written
  exact ⟨body, written, (read_iff 2 2 body _).mpr ⟨rfl, written⟩⟩

/-- A size is stored less one, low byte first, and the last payload has none. -/
example : write [[7, 8], [9]] 2 = .ok [1, 0, 7, 8, 9] := rfl

end TileGroup

end TileCoder.Header
