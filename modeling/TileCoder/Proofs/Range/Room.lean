import TileCoder.Proofs.Range.Safety

/-!
# Room for every symbol

The checks of a row ask that its values do not rise and start below the whole. They do not ask how
many there are, and each symbol takes its least part from the range. `Shares` is what coders rely on:
on every range, every symbol has a part of its own, and a reader whose point lies there selects the
symbol. `shares_iff` says that this holds of an accepted row just if it has room for its symbols.

A row without the room leaves none to its first symbol on the least of ranges, and a fresh reader does
not read that symbol from any payload (`symbol_ne_zero_of_crowded`).
-/

namespace TileCoder.Range

/-- `Token.part` with its differences checked. -/
def Token.part? (token : Token) (range : Nat) : Option Part := do
  let later ← minus? token.ranks 1
  let behind := scale range token.behind + minPart * later
  if token.before < Cdf.top then do
    let before := scale range token.before + minPart * token.ranks
    let offset ← minus? range before
    let size ← minus? before behind
    some ⟨offset, size⟩
  else do
    let size ← minus? range behind
    some ⟨0, size⟩

/-- A place in a range, counted from its lower end, lies in a part. -/
def Part.Contains (part : Part) (place : Nat) : Prop :=
  part.offset ≤ place ∧ place < part.offset + part.size

/-- The place in the range that a reader's point is, counted from the lower end. -/
def Reader.place (reader : Reader) : Nat := reader.range - 1 - reader.window / 65536

/-- Goes on with a part of the range, taking off what lies above it. -/
def Reader.select (reader : Reader) (part : Part) : Reader :=
  reader.enter (reader.window - (reader.range - (part.offset + part.size)) * 65536) part.size

/-- The symbols of a row share all ranges, and readers tell them apart. -/
structure Shares (cdf : Cdf) : Prop where
  /-- No difference falls below zero, and a piece of the range is left to the symbol. -/
  part : ∀ range symbol, InScale range → symbol < cdf.arity →
    (Token.ofSymbol cdf symbol).part? range = some ((Token.ofSymbol cdf symbol).part range) ∧
      1 ≤ ((Token.ofSymbol cdf symbol).part range).size ∧
      ((Token.ofSymbol cdf symbol).part range).offset +
        ((Token.ofSymbol cdf symbol).part range).size ≤ range
  disjoint : ∀ range i j place, InScale range → i < cdf.arity → j < cdf.arity →
    ((Token.ofSymbol cdf i).part range).Contains place →
      ((Token.ofSymbol cdf j).part range).Contains place → i = j
  /-- A reader goes on with the part that its point lies in, and delivers just that symbol. -/
  selects : ∀ (reader : Reader) (symbol : Nat), InScale reader.range → symbol < cdf.arity →
    reader.window < reader.range * 65536 →
      ((Token.ofSymbol cdf symbol).part reader.range).Contains reader.place →
        reader.symbol cdf =
          (reader.select ((Token.ofSymbol cdf symbol).part reader.range)).deliver symbol

section Room

variable {cdf : Cdf} {range symbol : Nat}

theorem part?_ofSymbol (roomy : cdf.Roomy) (scaled : InScale range) (inside : symbol < cdf.arity) :
    (Token.ofSymbol cdf symbol).part? range = some ((Token.ofSymbol cdf symbol).part range) := by
  have ends := lowerEnd_add_le_upperEnd roomy scaled inside
  have within := upperEnd_le roomy scaled inside
  have ranks : 1 ≤ (Token.ofSymbol cdf symbol).ranks := by
    unfold Cdf.arity at inside
    show 1 ≤ cdf.length - 1 - symbol
    omega
  rw [part_ofSymbol roomy.1 range inside]
  simp only [Token.part?, minus?_of_le ranks, Option.bind_eq_bind, Option.bind_some,
    behind_ofSymbol, before_lt_top_iff roomy.1 inside]
  cases symbol with
  | zero =>
      rw [upperEnd] at ends ⊢
      rw [if_neg (not_not_intro rfl), minus?_of_le (by omega), Nat.sub_self]
      rfl
  | succ symbol =>
      rw [if_pos (Nat.succ_ne_zero symbol), before_ofSymbol, minus?_of_le within,
        Option.bind_some, minus?_of_le (by omega)]
      rfl

/-- A place lies in the part of a symbol if the point at that place lies between the symbol's ends. -/
theorem between_of_contains (roomy : cdf.Roomy) (scaled : InScale range)
    (inside : symbol < cdf.arity) {point : Nat} (below : point < range)
    (contains : ((Token.ofSymbol cdf symbol).part range).Contains (range - 1 - point)) :
    lowerEnd cdf range symbol ≤ point ∧ point < upperEnd cdf range symbol := by
  have ends := lowerEnd_add_le_upperEnd roomy scaled inside
  have within := upperEnd_le roomy scaled inside
  rw [part_ofSymbol roomy.1 range inside] at contains
  obtain ⟨above, under⟩ := contains
  dsimp only at above under
  omega

/-- Between the ends of two symbols lie different points. -/
theorem eq_of_between (codable : cdf.Codable) {i j point : Nat} (i_inside : i < cdf.arity)
    (j_inside : j < cdf.arity)
    (i_between : lowerEnd cdf range i ≤ point ∧ point < upperEnd cdf range i)
    (j_between : lowerEnd cdf range j ≤ point ∧ point < upperEnd cdf range j) : i = j := by
  -- the part of a later symbol ends where that of an earlier one starts, or further down
  have apart : ∀ a b, a < b → b < cdf.arity → upperEnd cdf range b ≤ lowerEnd cdf range a := by
    intro a b before inside
    obtain ⟨last, rfl⟩ : ∃ last, b = last + 1 := ⟨b - 1, by omega⟩
    exact lowerEnd_anti codable range (by omega) (by omega)
  rcases Nat.lt_trichotomy i j with before | same | after
  · have := apart i j before j_inside
    omega
  · exact same
  · have := apart j i after i_inside
    omega

/-- Where there is room, the symbols share every range. -/
theorem shares_of_roomy (roomy : cdf.Roomy) : Shares cdf where
  part range symbol scaled inside := by
    have sound := Token.Sound.ofSymbol roomy inside range scaled
    exact ⟨part?_ofSymbol roomy scaled inside, sound.1, sound.2⟩
  disjoint range i j place scaled i_inside j_inside i_contains j_contains := by
    have i_sound := Token.Sound.ofSymbol roomy i_inside range scaled
    have below : place < range := lt_of_lt_of_le i_contains.2 i_sound.2
    -- a place is where the point is that lies as far from the other end
    have place_eq : place = range - 1 - (range - 1 - place) := by omega
    rw [place_eq] at i_contains j_contains
    exact eq_of_between roomy.1 i_inside j_inside
      (between_of_contains roomy scaled i_inside (by omega) i_contains)
      (between_of_contains roomy scaled j_inside (by omega) j_contains)
  selects reader symbol scaled inside window_lt contains := by
    have point_lt : reader.window / 65536 < reader.range := by omega
    obtain ⟨reached, below⟩ := between_of_contains roomy scaled inside point_lt contains
    have ends := lowerEnd_add_le_upperEnd roomy scaled inside
    have within := upperEnd_le roomy scaled inside
    have above : reader.range - (reader.range - upperEnd cdf reader.range symbol +
        (upperEnd cdf reader.range symbol - lowerEnd cdf reader.range symbol)) =
          lowerEnd cdf reader.range symbol := by omega
    rw [part_ofSymbol roomy.1 reader.range inside, Reader.select, above]
    exact Reader.symbol_eq scaled roomy inside reached below

/-- Where the part of the first symbol ends on the least of ranges; with its own least part this is
what a row needs. -/
theorem lowerEnd_fullRange (codable : cdf.Codable) :
    lowerEnd cdf fullRange 0 + minPart = 64 * (cdf.getD 0 0 / 64) + minPart * cdf.arity := by
  have long := codable.three_le
  unfold lowerEnd scale fullRange minPart Cdf.arity
  omega

/-- A row without the room leaves nothing of the least range to its first symbol. -/
theorem fullRange_le_lowerEnd (codable : cdf.Codable) (crowded : ¬cdf.Roomy) :
    fullRange ≤ lowerEnd cdf fullRange 0 := by
  have least : fullRange < lowerEnd cdf fullRange 0 + minPart := by
    rw [lowerEnd_fullRange codable]
    by_contra room
    exact crowded ⟨codable, Nat.le_of_not_lt room⟩
  -- both are multiples of the least part
  unfold lowerEnd scale at least ⊢
  unfold fullRange minPart at *
  omega

/-- Accepted rows share all ranges just if they have the room. -/
theorem shares_iff (codable : cdf.Codable) : Shares cdf ↔ cdf.Roomy := by
  refine ⟨?_, shares_of_roomy⟩
  intro shares
  by_contra crowded
  have long := codable.three_le
  have first : 0 < cdf.arity := by
    unfold Cdf.arity
    omega
  obtain ⟨-, some, -⟩ := shares.part fullRange 0 inScale_fullRange first
  have none := fullRange_le_lowerEnd codable crowded
  rw [part_ofSymbol codable fullRange first, upperEnd] at some
  dsimp only at some
  omega

/-! ## Without the room -/

theorem le_symbol_choose (range point : Nat) (values : List Nat) (symbol upper : Nat) :
    symbol ≤ (Reader.choose range point values symbol upper).symbol := by
  induction values generalizing symbol upper with
  | nil => exact Nat.le_refl _
  | cons value rest ih =>
      rw [Reader.choose]
      split
      · exact Nat.le_refl _
      · exact (Nat.le_succ _).trans (ih _ _)

/-- The walk down a row without the room passes the first symbol, wherever the point is. -/
theorem choose_of_crowded (codable : cdf.Codable) (crowded : ¬cdf.Roomy) {point : Nat}
    (point_lt : point < fullRange) :
    1 ≤ (Reader.choose fullRange point cdf 0 fullRange).symbol := by
  have long := codable.three_le
  have passed := fullRange_le_lowerEnd codable crowded
  match cdf with
  | [] => cases long
  | value :: rest =>
      have lower : scale fullRange value + minPart * (rest.length - 1) =
          lowerEnd (value :: rest) fullRange 0 := rfl
      rw [List.length_cons] at long
      rw [Reader.choose, if_neg (by rw [lower]; omega)]
      exact le_symbol_choose _ _ _ _ _

/-- On the least of ranges a reader does not read the first symbol of a row without the room. -/
theorem symbol_ne_zero_of_crowded (codable : cdf.Codable) (crowded : ¬cdf.Roomy) {reader : Reader}
    (least : reader.range = fullRange) (window_lt : reader.window < reader.range * 65536) :
    (reader.symbol cdf).1 ≠ .ok 0 := by
  intro read
  have point_lt : reader.window / 65536 < fullRange := by omega
  have later := choose_of_crowded codable crowded point_lt
  unfold Reader.symbol at read
  rw [least] at read
  split at read
  · cases read
  · dsimp only at read
    split at read
    · cases read
    · unfold Reader.deliver at read
      split at read
      · cases read
      · have first : (Reader.choose fullRange (reader.window / 65536) cdf 0 fullRange).symbol = 0 :=
          Except.ok.inj read
        omega

end Room

end TileCoder.Range
