import TileCoder.Cdf.Training
import TileCoder.Proofs.Cdf.Codable

/-!
# Trained rows

Training walks along the counts and gives out cumulative shares. A share is rounded, then pushed
down to leave every symbol behind it `minMass`, then pushed up to give its own symbol `minMass`. The
two pushes never fight (`nextShare_room`): the room for the symbols behind is there before the step,
and a step of `minMass` takes no more of it than belongs to the step's symbol. So the shares stay
apart from each other and from both ends of the scale, whatever the counts are
(`spaced_trainedValues`), and where the rounded shares are apart by themselves no push moves one
(`getD_trainedValues`).
-/

namespace TileCoder.Cdf

/-! ## One step -/

/-- A part of the whole weight in `1 / 32768`, rounded to the nearest. -/
def roundedShare (total part : Nat) : Nat := (part * top + total / 2) / total

/-- The share given out after `share` when `left` symbols are still to come. -/
def nextShare (rounded left share : Nat) : Nat :=
  max (min rounded (top - minMass * left)) (share + minMass)

theorem trainedValues_cons (total sum share count next : Nat) (rest : List Nat) :
    trainedValues total sum share (count :: next :: rest) =
      (top - nextShare (roundedShare total (sum + count + 1)) (rest.length + 1) share) ::
        trainedValues total (sum + count + 1)
          (nextShare (roundedShare total (sum + count + 1)) (rest.length + 1) share)
          (next :: rest) := rfl

theorem add_minMass_le_nextShare (rounded left share : Nat) :
    share + minMass ≤ nextShare rounded left share :=
  Nat.le_max_right _ _

/-- A step leaves the symbols to come their room. -/
theorem nextShare_room (rounded : Nat) {left share : Nat}
    (room : share + minMass * (left + 1) ≤ top) :
    nextShare rounded left share + minMass * left ≤ top := by
  have down : min rounded (top - minMass * left) ≤ top - minMass * left := Nat.min_le_right _ _
  have up : share + minMass ≤ top - minMass * left := by
    rw [Nat.mul_succ] at room
    omega
  have both : nextShare rounded left share ≤ top - minMass * left := Nat.max_le.mpr ⟨down, up⟩
  rw [Nat.mul_succ] at room
  omega

/-- A share with room on both sides is given out as it is. -/
theorem nextShare_eq {rounded left share : Nat} (front : share + minMass ≤ rounded)
    (behind : rounded + minMass * left ≤ top) : nextShare rounded left share = rounded := by
  unfold nextShare
  rw [Nat.min_eq_left (Nat.le_sub_of_add_le behind), Nat.max_eq_left front]

/-! ## All steps -/

@[simp] theorem length_trainedValues (total sum share : Nat) (counts : List Nat) :
    (trainedValues total sum share counts).length = counts.length - 1 := by
  fun_induction trainedValues total sum share counts with
  | case1 => rfl
  | case2 => rfl
  | case3 sum share count next rest _ _ _ ih =>
      rw [List.length_cons, ih]
      rfl

/-- Neighbouring values are at least `minMass` apart. -/
def Spaced (values : List Nat) : Prop :=
  values.IsChain fun front behind => behind + minMass ≤ front

/-- The values given out stand apart from the one before them, from each other and from the
terminal. -/
theorem spaced_trainedValues (total sum : Nat) {share : Nat} {counts : List Nat}
    (filled : counts ≠ []) (room : share + minMass * counts.length ≤ top) :
    Spaced ((top - share) :: (trainedValues total sum share counts ++ [0])) := by
  induction counts generalizing sum share with
  | nil => exact absurd rfl filled
  | cons count rest ih =>
      cases rest with
      | nil =>
          have last : 0 + minMass ≤ top - share := by
            rw [List.length_singleton] at room
            omega
          exact List.isChain_cons_cons.mpr ⟨last, List.isChain_singleton 0⟩
      | cons next rest =>
          rw [trainedValues_cons]
          have below := nextShare_room (roundedShare total (sum + count + 1)) room
          have above := add_minMass_le_nextShare (roundedShare total (sum + count + 1))
            (rest.length + 1) share
          generalize nextShare _ (rest.length + 1) share = share' at below above ⊢
          refine List.isChain_cons_cons.mpr ⟨?_, ih _ (List.cons_ne_nil next rest) below⟩
          omega

/-! ## Rounded shares with room -/

/-- The weight of the first `n` symbols, each counted once more than it was seen. -/
def weight (counts : List Nat) (n : Nat) : Nat := ((counts.take n).map (· + 1)).sum

@[simp] theorem weight_zero (counts : List Nat) : weight counts 0 = 0 := rfl

theorem weight_length (counts : List Nat) :
    weight counts counts.length = (counts.map (· + 1)).sum := by
  rw [weight, List.take_length]

theorem weight_pos {counts : List Nat} (filled : counts ≠ []) :
    0 < weight counts counts.length := by
  obtain ⟨count, rest, rfl⟩ := List.exists_cons_of_ne_nil filled
  rw [weight_length, List.map_cons, List.sum_cons]
  omega

theorem add_weight_cons (sum count : Nat) (rest : List Nat) (n : Nat) :
    sum + weight (count :: rest) (n + 1) = sum + count + 1 + weight rest n := by
  simp [weight, Nat.add_assoc]

theorem roundedShare_zero {total : Nat} (positive : 0 < total) : roundedShare total 0 = 0 := by
  rw [roundedShare, Nat.zero_mul, Nat.zero_add]
  exact Nat.div_eq_of_lt (Nat.div_lt_self positive (Nat.lt_succ_self 1))

theorem roundedShare_self {total : Nat} (positive : 0 < total) :
    roundedShare total total = top := by
  rw [roundedShare, Nat.mul_add_div positive,
    Nat.div_eq_of_lt (Nat.div_lt_self positive (Nat.lt_succ_self 1)), Nat.add_zero]

/-- Steps of at least `minMass` add up. -/
theorem add_mul_minMass_le {shares : Nat → Nat} {n : Nat}
    (apart : ∀ s < n, shares s + minMass ≤ shares (s + 1)) :
    shares 0 + minMass * n ≤ shares n := by
  induction n with
  | zero => simp
  | succ n ih =>
      have front := ih fun s inside => apart s (Nat.lt_succ_of_lt inside)
      have last := apart n (Nat.lt_succ_self n)
      rw [Nat.mul_succ]
      omega

/-- Rounded shares that stand apart by themselves are given out as they are. -/
theorem getD_trainedValues {total sum : Nat} {counts : List Nat}
    (apart : ∀ s < counts.length,
      roundedShare total (sum + weight counts s) + minMass ≤
        roundedShare total (sum + weight counts (s + 1)))
    (whole : roundedShare total (sum + weight counts counts.length) = top) {i : Nat}
    (inside : i + 1 < counts.length) :
    (trainedValues total sum (roundedShare total sum) counts).getD i 0 =
      top - roundedShare total (sum + weight counts (i + 1)) := by
  induction counts generalizing sum i with
  | nil => exact absurd inside (Nat.not_lt_zero _)
  | cons count rest ih =>
      cases rest with
      | nil => exact absurd inside (by simp)
      | cons next rest =>
          have front := apart 0 (Nat.succ_pos _)
          have apart' : ∀ s < (next :: rest).length,
              roundedShare total (sum + count + 1 + weight (next :: rest) s) + minMass ≤
                roundedShare total (sum + count + 1 + weight (next :: rest) (s + 1)) := by
            intro s inside
            rw [← add_weight_cons, ← add_weight_cons]
            exact apart (s + 1) (Nat.succ_lt_succ inside)
          rw [List.length_cons, add_weight_cons] at whole
          -- The steps behind this one add up to the room its share has to leave.
          have behind := add_mul_minMass_le apart'
          rw [whole] at behind
          simp only [add_weight_cons, weight_zero, Nat.add_zero] at front behind
          have kept := nextShare_eq front behind
          rw [trainedValues_cons, ← List.length_cons, kept, add_weight_cons]
          cases i with
          | zero => rw [List.getD_cons_zero, weight_zero, Nat.add_zero]
          | succ i =>
              rw [List.getD_cons_succ]
              exact ih apart' whole (Nat.lt_of_succ_lt_succ inside)

/-! ## Rows with room for every symbol -/

section

variable {cdf : Cdf}

theorem minMass_le_mass (spaced : Spaced (top :: cdf.dropLast)) {s : Nat}
    (inside : s < cdf.arity) : minMass ≤ cdf.mass s := by
  unfold arity at inside
  have apart := spaced.getElem s (by simp; omega)
  rw [List.getElem_cons_succ, List.getElem_dropLast] at apart
  rw [mass, List.getD_eq_getElem _ _ (by omega)]
  cases s with
  | zero =>
      rw [List.getElem_cons_zero] at apart
      exact Nat.le_sub_of_add_le' apart
  | succ s =>
      rw [List.getElem_cons_succ, List.getElem_dropLast] at apart
      rw [before, List.getD_eq_getElem _ _ (by omega)]
      exact Nat.le_sub_of_add_le' apart

theorem strict_of_spaced (long : 3 ≤ cdf.length) (terminal : cdf.terminal = 0)
    (fresh : cdf.count = 0) (spaced : Spaced (top :: cdf.dropLast)) : cdf.Strict := by
  have falling : (top :: cdf.dropLast).Pairwise (· > ·) := by
    refine List.isChain_iff_pairwise.mp (spaced.imp ?_)
    intro front behind apart
    exact Nat.lt_of_lt_of_le (Nat.lt_add_of_pos_right (by decide)) apart
  refine ⟨⟨long, terminal, ?_, ?_⟩, falling⟩
  · rw [fresh]
    exact Nat.zero_le _
  · exact (List.pairwise_cons.mp falling).2.imp Nat.le_of_lt

end

/-! ## The trained row -/

/-- The row that the counts give: the values, the terminal, and the counter at zero. -/
def trainedRow (counts : List Nat) : Cdf :=
  trainedValues (counts.map (· + 1)).sum 0 0 counts ++ [0, 0]

section

variable {counts : List Nat}

theorem dropLast_trainedRow (counts : List Nat) :
    (trainedRow counts).dropLast =
      trainedValues (counts.map (· + 1)).sum 0 0 counts ++ [0] := by
  rw [trainedRow, List.append_cons, List.dropLast_concat]

theorem length_trainedRow (filled : counts ≠ []) :
    (trainedRow counts).length = counts.length + 1 := by
  have positive := List.length_pos_of_ne_nil filled
  rw [trainedRow, List.length_append, length_trainedValues, List.length_cons,
    List.length_singleton]
  omega

/-- Behind the values stand the terminal and the counter, both zero. -/
theorem getD_trainedRow_behind {i : Nat} (behind : counts.length ≤ i + 1) :
    (trainedRow counts).getD i 0 = 0 := by
  have tail : ∀ j, [0, 0].getD j 0 = 0 := by
    rintro (_ | _ | j) <;> rfl
  rw [trainedRow, List.getD_append_right _ _ _ _ (by rw [length_trainedValues]; omega)]
  exact tail _

theorem terminal_trainedRow (filled : counts ≠ []) : (trainedRow counts).terminal = 0 := by
  rw [terminal, length_trainedRow filled]
  exact getD_trainedRow_behind (by omega)

theorem count_trainedRow (filled : counts ≠ []) : (trainedRow counts).count = 0 := by
  rw [count, length_trainedRow filled]
  exact getD_trainedRow_behind (by omega)

/-- The scale has `minMass` for every symbol of the largest alphabet. -/
theorem spaced_trainedRow (filled : counts ≠ []) (few : counts.length ≤ maxSymbols) :
    Spaced (top :: (trainedRow counts).dropLast) := by
  have room : 0 + minMass * counts.length ≤ top := by
    unfold minMass maxSymbols top at *
    omega
  rw [dropLast_trainedRow]
  exact spaced_trainedValues _ 0 filled room

theorem strict_trainedRow (two : 2 ≤ counts.length) (few : counts.length ≤ maxSymbols) :
    (trainedRow counts).Strict := by
  have filled : counts ≠ [] := List.ne_nil_of_length_pos (by omega)
  refine strict_of_spaced ?_ (terminal_trainedRow filled) (count_trainedRow filled)
    (spaced_trainedRow filled few)
  rw [length_trainedRow filled]
  omega

/-- The share of the first `n` symbols in all counts, rounded. -/
def countedShare (counts : List Nat) (n : Nat) : Nat :=
  roundedShare (weight counts counts.length) (weight counts n)

theorem countedShare_zero (filled : counts ≠ []) : countedShare counts 0 = 0 :=
  roundedShare_zero (weight_pos filled)

theorem countedShare_length (filled : counts ≠ []) : countedShare counts counts.length = top :=
  roundedShare_self (weight_pos filled)

/-- Where the rounded shares stand apart, they make up the row, terminal included. -/
theorem getD_trainedRow
    (apart : ∀ s < counts.length, countedShare counts s + minMass ≤ countedShare counts (s + 1))
    {i : Nat} (inside : i < counts.length) :
    (trainedRow counts).getD i 0 = top - countedShare counts (i + 1) := by
  have filled : counts ≠ [] := List.ne_nil_of_length_pos (by omega)
  have whole := countedShare_length filled
  rcases Nat.lt_or_ge (i + 1) counts.length with front | last
  · have values : (trainedValues (weight counts counts.length) 0
        (roundedShare (weight counts counts.length) 0) counts).getD i 0 =
          top - roundedShare (weight counts counts.length) (0 + weight counts (i + 1)) := by
      refine getD_trainedValues ?_ ?_ front
      · simpa only [countedShare, Nat.zero_add] using apart
      · rwa [Nat.zero_add]
    rw [roundedShare_zero (weight_pos filled), Nat.zero_add, weight_length] at values
    rw [trainedRow, List.getD_append _ _ _ _ (by rw [length_trainedValues]; omega), values,
      countedShare, weight_length]
  · have all : i + 1 = counts.length := by omega
    rw [getD_trainedRow_behind last, all, whole, Nat.sub_self]

end

/-- No row is refused for its values: what is given out is always strict. -/
theorem ofCounts_eq_ok {symbols : Nat} {counts : List Nat} {cdf : Cdf} :
    ofCounts symbols counts = .ok cdf ↔
      (2 ≤ symbols ∧ symbols ≤ maxSymbols ∧ counts.length = symbols) ∧ trainedRow counts = cdf := by
  by_cases fits : 2 ≤ symbols ∧ symbols ≤ maxSymbols ∧ counts.length = symbols
  · obtain ⟨two, few, rfl⟩ := fits
    have strict := checkStrict_eq_ok.mpr (strict_trainedRow two few)
    have inside : ¬ (counts.length < 2 ∨ maxSymbols < counts.length ∨
        counts.length ≠ counts.length) := by omega
    have answer : ofCounts counts.length counts = .ok (trainedRow counts) := by
      rw [ofCounts, if_neg inside]
      change (do
        (trainedRow counts).checkStrict
        pure (trainedRow counts)) = _
      rw [strict]
      rfl
    rw [answer, Except.ok.injEq]
    exact ⟨fun same => ⟨⟨two, few, rfl⟩, same⟩, And.right⟩
  · have outside : symbols < 2 ∨ maxSymbols < symbols ∨ counts.length ≠ symbols := by omega
    have refused : ofCounts symbols counts = .error .invalidProbability := by
      rw [ofCounts, if_pos outside]
      rfl
    rw [refused]
    exact ⟨nofun, fun row => absurd row.1 fits⟩

/-- **A trained row can always be coded.** Training answers exactly the alphabets of two to
`maxSymbols` symbols with a count for each, whatever the counts are. Its row is fresh and strict,
and leaves every symbol `minMass`; and where the rounded shares, which go from zero to the top, do
that by themselves, they are the row. -/
theorem trained_codable (symbols : Nat) (counts : List Nat) :
    ((∃ cdf, ofCounts symbols counts = .ok cdf) ↔
        2 ≤ symbols ∧ symbols ≤ maxSymbols ∧ counts.length = symbols) ∧
      ∀ cdf, ofCounts symbols counts = .ok cdf →
        cdf.length = symbols + 1 ∧ cdf.checkStrict = .ok () ∧ cdf.count = 0 ∧
          (∀ s < symbols, minMass ≤ cdf.mass s) ∧
          countedShare counts 0 = 0 ∧ countedShare counts symbols = top ∧
          ((∀ s < symbols, countedShare counts s + minMass ≤ countedShare counts (s + 1)) →
            ∀ i < symbols, cdf.getD i 0 = top - countedShare counts (i + 1)) := by
  refine ⟨?_, ?_⟩
  · simp only [ofCounts_eq_ok, exists_and_left, exists_eq', and_true]
  · intro cdf trained
    obtain ⟨⟨two, few, rfl⟩, rfl⟩ := ofCounts_eq_ok.mp trained
    have filled : counts ≠ [] := List.ne_nil_of_length_pos (by omega)
    have long := length_trainedRow filled
    refine ⟨long, checkStrict_eq_ok.mpr (strict_trainedRow two few), count_trainedRow filled, ?_,
      countedShare_zero filled, countedShare_length filled, ?_⟩
    · intro s inside
      have symbol : s < (trainedRow counts).arity := by
        rwa [arity, long, Nat.add_sub_cancel]
      exact minMass_le_mass (spaced_trainedRow filled few) symbol
    · intro apart i inside
      exact getD_trainedRow apart inside

/-- One huge count among empty ones leaves the last symbol the least mass; counts of one magnitude
are only rounded. -/
theorem trained_codable_uneven :
    let huge := 4294967295 :: List.replicate 15 0
    let alike := [2, 0, 1]
    (∃ cdf, ofCounts 16 huge = .ok cdf ∧ cdf.checkStrict = .ok () ∧ minMass ≤ cdf.mass 15) ∧
      ∃ cdf, ofCounts 3 alike = .ok cdf ∧ cdf.getD 1 0 = top - countedShare alike 2 := by
  intro huge alike
  obtain ⟨cdf, trained⟩ := (trained_codable 16 huge).1.mpr (by decide)
  obtain ⟨-, strict, -, wide, -⟩ := (trained_codable 16 huge).2 cdf trained
  obtain ⟨cdf', trained'⟩ := (trained_codable 3 alike).1.mpr (by decide)
  obtain ⟨-, -, -, -, -, -, rounded⟩ := (trained_codable 3 alike).2 cdf' trained'
  exact ⟨⟨cdf, trained, strict, wide 15 (by decide)⟩, cdf', trained',
    rounded (by decide) 1 (by decide)⟩

end TileCoder.Cdf
