import TileCoder.Proofs.Range.Guarded

/-!
# Arbitrary bytes, arbitrary rows

A reader may be given any bytes as its payload, and be told to read flags of any mass and symbols
of any row, of whatever length and with whatever values. `Safe` says what still holds in front of
each such call: the range is in scale, the window lies within it, and no difference that the call
takes falls below zero. The latter is said through a second version of each operation
(`enter?`, `flag?`, `choose?`, `symbol?`) in which every difference is checked, every value of a row
is looked up, and the whole fails as soon as one is not there: on a safe reader these versions give
what the unchecked ones give.

`safe_after` is the result for a whole run of calls. What carries it is `Steady`: the invariant of a
reader, and that between two calls at least the bits of one part are loaded.
-/

namespace TileCoder.Range

/-- A difference, as long as it does not fall below zero. -/
def minus? (a b : Nat) : Option Nat := if b ≤ a then some (a - b) else none

@[simp] theorem minus?_of_le {a b : Nat} (order : b ≤ a) : minus? a b = some (a - b) :=
  if_pos order

/-- A count less a number of bits, as long as it stays a number of sixteen bits. -/
def countLess? (count : Int) (shift : Nat) : Option Int :=
  if -32768 ≤ count - shift then some (count - shift) else none

@[simp] theorem countLess?_of_le {count : Int} {shift : Nat} (room : -32768 ≤ count - shift) :
    countLess? count shift = some (count - shift) :=
  if_pos room

namespace Reader

/-! ## The checked operations -/

section Checked

variable (reader : Reader)

/-- `enter` with its differences checked. -/
def enter? (window part : Nat) : Option Reader := do
  let shift ← minus? 16 (bitLength part)
  let count ← countLess? reader.count shift
  let window ← minus? ((window + 1) * 2 ^ shift) 1
  let next := { reader with window, range := part * 2 ^ shift, count }
  some (if next.count < 0 then next.refill else next)

/-- `flag` with its differences checked. -/
def flag? (mass : Nat) : Option (Except CodingError Bool × Reader) :=
  let part := scale reader.range mass + minPart
  if part ≤ reader.window / 65536 then do
    let window ← minus? reader.window (part * 65536)
    let rest ← minus? reader.range part
    let next ← reader.enter? window rest
    some (next.deliver false)
  else do
    let next ← reader.enter? reader.window part
    some (next.deliver true)

/-- `choose` with its differences checked and each value looked up: `last` is the index of the
terminal. -/
def choose? (range point last : Nat) : (values : List Nat) → (symbol upper : Nat) → Option Choice
  | [], _, _ => none
  | value :: rest, symbol, upper => do
      let behind ← minus? last symbol
      let lower := scale range value + minPart * behind
      if lower ≤ point ∨ symbol = last then some ⟨symbol, upper, lower⟩
      else choose? range point last rest (symbol + 1) lower

/-- `symbol` with its differences checked. -/
def symbol? (cdf : Cdf) : Option (Except CodingError Nat × Reader) :=
  if cdf.length < 3 then some (.error .corruptCdf, reader)
  else do
    let last ← minus? cdf.length 2
    let terminal ← cdf[last]?
    let counter ← cdf[last + 1]?
    if terminal ≠ 0 ∨ Cdf.countMax < counter then some (.error .corruptCdf, reader)
    else
      let point := reader.window / 65536
      let choice ← choose? reader.range point last cdf 0 reader.range
      if choice.upper ≤ choice.lower ∨ reader.range < choice.upper ∨ point < choice.lower then
        some (.error .corruptCdf, reader)
      else
        let window ← minus? reader.window (choice.lower * 65536)
        let part ← minus? choice.upper choice.lower
        let next ← reader.enter? window part
        some (next.deliver choice.symbol)

end Checked

/-! ## Loaded bits -/

/-- What is left to load was not loaded because a whole byte did not fit any more. -/
theorem lt_count_load (rest : List UInt8) (loaded window : Nat) (count : Int) :
    (load rest loaded window count).1 ≠ [] → 8 < (load rest loaded window count).2.2.2 := by
  induction rest generalizing loaded window count with
  | nil => intro more; exact absurd rfl more
  | cons byte rest ih =>
      rw [load]
      split
      · intro _; assumption
      · exact ih _ _ _

theorem count_refill_nonneg (reader : Reader) : 0 ≤ reader.refill.count := by
  have full := lt_count_load reader.rest reader.loaded reader.window reader.count
  unfold refill
  dsimp only
  split
  · show (0 : Int) ≤ plenty
    decide
  next more => exact le_trans (by decide) (full more).le

theorem count_enter_nonneg (reader : Reader) (window part : Nat) :
    0 ≤ (reader.enter window part).count := by
  unfold enter
  dsimp only
  split
  · exact count_refill_nonneg _
  next enough => exact Int.not_lt.mp enough

/-- The state of a reader between two calls. -/
structure Steady (reader : Reader) : Prop where
  sound : reader.Sound
  count_nonneg : 0 ≤ reader.count

theorem steady_ofBytes (payload : List UInt8) : (ofBytes payload).Steady :=
  ⟨sound_ofBytes payload, count_refill_nonneg _⟩

/-! ## What a call does -/

section Calls

variable {reader : Reader}

theorem enter?_eq {window part : Nat} (count_nonneg : 0 ≤ reader.count)
    (entry : reader.Entry window part) :
    reader.enter? window part = some (reader.enter window part) := by
  have bounded : bitLength part ≤ 16 := by
    have := log2_lt_sixteen entry.positive.ne' entry.small
    rw [bitLength, if_neg entry.positive.ne']
    omega
  have shift : 16 - bitLength part = headroom part := rfl
  have short := headroom_le part entry.positive
  have filled : 1 ≤ (window + 1) * 2 ^ headroom part := Nat.one_le_iff_ne_zero.mpr (by positivity)
  have room : -32768 ≤ reader.count - headroom part := by omega
  simp only [enter?, minus?_of_le bounded, shift, countLess?_of_le room, minus?_of_le filled,
    Option.bind_eq_bind, Option.bind_some]
  rfl

theorem Entry.steady {window part : Nat} (entry : reader.Entry window part) :
    (reader.enter window part).Steady :=
  ⟨(enter_spec entry).1, count_enter_nonneg _ _ _⟩

/-- Where the point lies above the part of a set flag, what is left is a part as well. -/
theorem Sound.entry_clear (sound : reader.Sound) {mass : Nat}
    (reached : scale reader.range mass + minPart ≤ reader.window / 65536) :
    reader.Entry (reader.window - (scale reader.range mass + minPart) * 65536)
      (reader.range - (scale reader.range mass + minPart)) :=
  sound.entry le_rfl reached sound.point_lt

theorem Sound.entry_set (sound : reader.Sound) {mass : Nat} (below : mass < Cdf.top)
    (passed : ¬scale reader.range mass + minPart ≤ reader.window / 65536) :
    reader.Entry reader.window (scale reader.range mass + minPart) := by
  have room := scale_add_le sound.scaled below
  have entry : reader.Entry (reader.window - 0 * 65536) (scale reader.range mass + minPart - 0) :=
    sound.entry (by unfold minPart; omega) (Nat.zero_le _) (by omega)
  simpa using entry

theorem Steady.flag?_eq (steady : reader.Steady) {mass : Nat} (below : mass < Cdf.top) :
    reader.flag? mass = some (reader.flag mass) := by
  obtain ⟨sound, loaded⟩ := steady
  unfold flag? flag
  dsimp only
  split
  next reached =>
    have within : scale reader.range mass + minPart ≤ reader.range :=
      reached.trans sound.point_lt.le
    have fits : (scale reader.range mass + minPart) * 65536 ≤ reader.window := by omega
    rw [minus?_of_le fits, minus?_of_le within, Option.bind_eq_bind, Option.bind_some,
      Option.bind_eq_bind, Option.bind_some, enter?_eq loaded (sound.entry_clear reached)]
    rfl
  next passed =>
    rw [enter?_eq loaded (sound.entry_set below passed)]
    rfl

theorem Steady.flag (steady : reader.Steady) {mass : Nat} (below : mass < Cdf.top) :
    (reader.flag mass).2.Steady := by
  unfold Reader.flag
  dsimp only
  split
  next reached =>
    rw [deliver_snd]
    exact (steady.sound.entry_clear reached).steady
  next passed =>
    rw [deliver_snd]
    exact (steady.sound.entry_set below passed).steady

/-- The walk finds every value that it looks up, and ends at the terminal at the latest. -/
theorem choose?_eq (range point last : Nat) {values : List Nat} {symbol : Nat} (upper : Nat)
    (before : symbol ≤ last) (length : values.length = last + 2 - symbol) :
    choose? range point last values symbol upper = some (choose range point values symbol upper) ∧
      (choose range point values symbol upper).symbol ≤ last := by
  induction values generalizing symbol upper with
  | nil =>
      rw [List.length_nil] at length
      omega
  | cons value rest ih =>
      rw [List.length_cons] at length
      have behind : rest.length - 1 = last - symbol := by omega
      have ends : rest.length ≤ 1 ↔ symbol = last := by omega
      simp only [choose?, choose, minus?_of_le before, behind, ends, Option.bind_eq_bind,
        Option.bind_some]
      split
      · exact ⟨rfl, before⟩
      next further => exact ih _ (by omega) (by omega)

theorem Steady.symbol?_eq (steady : reader.Steady) (cdf : Cdf) :
    reader.symbol? cdf = some (reader.symbol cdf) := by
  obtain ⟨sound, loaded⟩ := steady
  unfold symbol? Reader.symbol
  by_cases short : cdf.length < 3
  · rw [if_pos short, if_pos (Or.inl short)]
  obtain ⟨last, length⟩ : ∃ last, cdf.length = last + 2 := ⟨cdf.length - 2, by omega⟩
  have terminal : cdf[last]? = some cdf.terminal := by
    rw [Cdf.terminal, length, Nat.add_sub_cancel, List.getD_eq_getElem _ _ (by omega)]
    exact List.getElem?_eq_getElem _
  have counter : cdf[last + 1]? = some cdf.count := by
    rw [Cdf.count, length, show last + 2 - 1 = last + 1 by omega,
      List.getD_eq_getElem _ _ (by omega)]
    exact List.getElem?_eq_getElem _
  rw [if_neg short, minus?_of_le (by omega), show cdf.length - 2 = last by omega]
  simp only [Option.bind_eq_bind, Option.bind_some, terminal, counter, short, false_or]
  split
  · rfl
  have walk := (choose?_eq reader.range (reader.window / 65536) last reader.range (Nat.zero_le _)
    (show cdf.length = last + 2 - 0 by omega)).1
  rw [walk, Option.bind_some]
  have below := lt_upper_choose reader.range (reader.window / 65536) cdf 0 sound.point_lt
  split
  · rfl
  next guarded =>
    rw [minus?_of_le (by omega), Option.bind_some, minus?_of_le (by omega), Option.bind_some,
      enter?_eq loaded (sound.entry (by omega) (by omega) below), Option.bind_some]

theorem Steady.symbol (steady : reader.Steady) (cdf : Cdf) : (reader.symbol cdf).2.Steady := by
  refine ⟨steady.sound.symbol cdf, ?_⟩
  unfold Reader.symbol
  split
  · exact steady.count_nonneg
  · dsimp only
    split
    · exact steady.count_nonneg
    · rw [deliver_snd]
      exact count_enter_nonneg _ _ _

/-- What may come of reading a symbol: one of the row's symbols, that the row is corrupt, in which
case the reader has not moved, or that the payload is used up. -/
def Answered (reader : Reader) (cdf : Cdf) (answer : Except CodingError Nat × Reader) : Prop :=
  (∃ symbol, answer.1 = .ok symbol ∧ symbol < cdf.length - 1) ∨
    answer = (.error .corruptCdf, reader) ∨ answer.1 = .error .truncatedStream

theorem answered_symbol (reader : Reader) (cdf : Cdf) :
    reader.Answered cdf (reader.symbol cdf) := by
  unfold Reader.symbol
  split
  · exact Or.inr (Or.inl rfl)
  next row =>
    have length : cdf.length = cdf.length - 2 + 2 - 0 := by omega
    have within := (choose?_eq reader.range (reader.window / 65536) (cdf.length - 2) reader.range
      (Nat.zero_le _) length).2
    dsimp only
    split
    · exact Or.inr (Or.inl rfl)
    · unfold deliver
      split
      · exact Or.inr (Or.inr rfl)
      · exact Or.inl ⟨_, rfl, by omega⟩

end Calls

/-! ## Runs of calls -/

/-- A call on a reader. -/
inductive Request where
  | flag (mass : Nat)
  | symbol (cdf : Cdf)
  deriving DecidableEq, Repr

/-- The mass of a flag lies below the whole. Of rows nothing is asked. -/
def Request.Lawful : Request → Prop
  | flag mass => mass < Cdf.top
  | symbol _ => True

/-- The reader after a call, whatever came of it. -/
def serve (reader : Reader) : Request → Reader
  | .flag mass => (reader.flag mass).2
  | .symbol cdf => (reader.symbol cdf).2

/-- What holds of a reader in front of any call. -/
structure Safe (reader : Reader) : Prop where
  scaled : 32768 ≤ reader.range ∧ reader.range ≤ 65535
  window_lt : reader.window < reader.range * 2 ^ 16
  flag_checked : ∀ mass < Cdf.top, reader.flag? mass = some (reader.flag mass)
  symbol_checked : ∀ cdf, reader.symbol? cdf = some (reader.symbol cdf)
  answered : ∀ cdf, reader.Answered cdf (reader.symbol cdf)
  /-- A row that can be coded with is not taken for a corrupt one. -/
  blameless : ∀ cdf : Cdf, cdf.arity ≤ Cdf.maxSymbols → cdf.checkCodable = .ok () →
    (reader.symbol cdf).1 ≠ .error .corruptCdf

theorem Steady.safe {reader : Reader} (steady : reader.Steady) : reader.Safe where
  scaled := steady.sound.scaled
  window_lt := steady.sound.window_lt
  flag_checked _ below := steady.flag?_eq below
  symbol_checked cdf := steady.symbol?_eq cdf
  answered cdf := answered_symbol reader cdf
  blameless cdf few accepted := by
    have codable : cdf.Codable := by
      by_contra refused
      simp [Cdf.checkCodable, refused] at accepted
    exact steady.sound.symbol_blameless ⟨codable, few⟩

theorem Steady.serve {reader : Reader} (steady : reader.Steady) {request : Request}
    (lawful : request.Lawful) : (reader.serve request).Steady := by
  cases request with
  | flag mass => exact steady.flag lawful
  | symbol cdf => exact steady.symbol cdf

theorem Steady.foldl_serve {requests : List Request}
    (lawful : ∀ request ∈ requests, request.Lawful) {reader : Reader} (steady : reader.Steady) :
    (requests.foldl Reader.serve reader).Steady := by
  induction requests generalizing reader with
  | nil => exact steady
  | cons request requests ih =>
      obtain ⟨first, others⟩ := List.forall_mem_cons.mp lawful
      exact ih others (steady.serve first)

/-- **Whatever its payload and whatever it was told to read, a reader is safe.** After any sequence
of calls, failed ones included, the range is in scale and the window within it; in the next call no
difference falls below zero; a symbol that is read is one of its row, a row found corrupt leaves the
reader as it was, and no row of up to sixteen symbols that adaptation could have produced is found
corrupt. -/
theorem safe_after (payload : List UInt8) (requests : List Request)
    (lawful : ∀ request ∈ requests, request.Lawful) :
    (requests.foldl serve (ofBytes payload)).Safe :=
  ((steady_ofBytes payload).foldl_serve lawful).safe

/-- Two bytes, out of which a flag, a symbol of a row whose values rise, and two symbols more are
read; then the payload is used up. -/
theorem safe_after_rising :
    ([.flag 32767, .symbol [100, 40000, 50, 0, 7], .symbol [20000, 10000, 0, 32],
        .symbol [64, 64, 0, 0]].foldl serve (ofBytes [0x9c, 0x03])).Safe :=
  safe_after [0x9c, 0x03] _ (by simp [Request.Lawful, Cdf.top])

end Reader

end TileCoder.Range
