import TileCoder.Header.Item
import TileCoder.Proofs.Header.Fields
import TileCoder.Proofs.Tile.Numbers
import TileCoder.Tile.Primitive

/-!
# The same numbers in headers and in tiles

Headers carry numbers in plain bits and tiles carry them in a range coder, and `Number.item?` says
which codes are meant for both. Both write a number with the same bits, and both read it from them
(`Number.sameCode`). From any bits that are enough both readers come to the same number through the
same bits (`Number.agreeOn_iff`), with one exception. Where a window holds all numbers and the first
bit says that the number lies outside of it, the tile refuses the bits, but the header reads the number
of all numbers, which is none of them.
-/

namespace TileCoder

open TileCoder.Range TileCoder.Header

/-- The item of a header with the code of a number in a tile, if headers have it. -/
def Number.item? : Number → Option (Item Nat)
  | literal width => some (.field width)
  | gamma => some .gamma
  | uniform size => some (.uniform size)
  | subexp _ => none
  | subexpBelow size k => some (.subexpBelow size k)
  | subexpAround size k reference => some (.subexpAround size k reference)
  | bilevel size span reference => some (.bilevel size span reference)

/-! ## Readers of plain bits -/

namespace Header.FieldReader

variable {α β : Type}

/-- A reader of plain bits goes where a reader of a tile is led by the same bits. -/
def Retraces (plain : FieldReader α) (read : Parse α) : Prop :=
  ∀ ⦃bits : List Bool⦄ ⦃value : α⦄, read.Takes (bits.map .bit) value →
    ∀ rest, plain (bits ++ rest) = .ok (value, rest)

/-- What comes next only has to be retraced from the values that can be read first. -/
theorem Retraces.bind {plain : FieldReader α} {read : Parse α} {next : α → FieldReader β}
    {follow : α → Parse β} (first : plain.Retraces read)
    (second : ∀ steps value, read.Takes steps value → (next value).Retraces (follow value)) :
    (plain >>= next).Retraces (read >>= follow) := by
  intro bits result takes rest
  obtain ⟨value, front, back, split, here, there⟩ := takes.of_bind
  obtain ⟨front, back, rfl, rfl, rfl⟩ := List.map_eq_append_iff.mp split
  rw [List.append_assoc, bind_of_ok (first here (back ++ rest))]
  exact second _ value here there rest

theorem retraces_pure (value : α) : (pure value : FieldReader α).Retraces (pure value) := by
  intro bits result takes rest
  obtain ⟨none, rfl⟩ := Parse.takes_pure.mp takes
  obtain rfl := List.map_eq_nil_iff.mp none
  rfl

/-- Nothing is retraced where the reader of a tile gives up. -/
theorem retraces_fail (plain : FieldReader α) (error : CodingError) :
    plain.Retraces (.fail error) :=
  fun _ _ takes => absurd takes Parse.not_takes_fail

theorem retraces_bit : (Code.bit : FieldReader Bool).Retraces Code.bit := by
  intro bits b takes rest
  obtain ⟨first, others, rfl, first_eq, others_eq⟩ :=
    List.map_eq_cons_iff.mp (Parse.takes_bit takes)
  obtain rfl := Step.bit.inj first_eq
  obtain rfl := List.map_eq_nil_iff.mp others_eq
  rfl

theorem retraces_field {width : Nat} (narrow : width ≤ maxFieldWidth) :
    (Code.field width : FieldReader Nat).Retraces (Code.field width) := by
  intro bits number takes rest
  obtain ⟨fits, digits⟩ := Parse.takes_literal takes
  obtain rfl := List.map_injective_iff.mpr (fun _ _ => Step.bit.inj) digits
  show FieldReader.field width _ = _
  rw [field_append narrow, Nat.mod_eq_of_lt fits]

theorem Retraces.map {plain : FieldReader α} {read : Parse α} (first : plain.Retraces read)
    (change : α → β) :
    (plain >>= fun value => pure (change value)).Retraces
      (read >>= fun value => pure (change value)) :=
  first.bind fun _ _ _ => retraces_pure _

theorem Retraces.ite {condition : Prop} [Decidable condition] {first second : FieldReader α}
    {read other : Parse α} (here : condition → first.Retraces read)
    (there : ¬condition → second.Retraces other) :
    (if condition then first else second).Retraces (if condition then read else other) := by
  split
  next holds => exact here holds
  next fails => exact there fails

/-! ### Integer codes -/

theorem retraces_uniform {size : Nat} (word : size < wordSize) :
    (Code.readUniform size : FieldReader Nat).Retraces (Code.readUniform size) := by
  have width_le : bitLength size ≤ 32 := bitLength_le word
  have narrow : bitLength size - 1 ≤ maxFieldWidth := by
    unfold maxFieldWidth
    omega
  refine Retraces.ite (fun _ => retraces_pure 0) fun _ => (retraces_field narrow).bind ?_
  intro _ value _
  refine Retraces.ite (fun _ => retraces_pure value) fun _ => ?_
  exact (retraces_field (by decide)).map _

theorem retraces_countZeros (limit : Nat) :
    (Code.countZeros limit : FieldReader Nat).Retraces (Code.countZeros limit) := by
  induction limit with
  | zero => exact retraces_pure 0
  | succ limit ih =>
      apply retraces_bit.bind
      intro _ one _
      exact .ite (fun _ => retraces_pure 0) fun _ => ih.map (· + 1)

theorem retraces_gamma : (Code.readGamma : FieldReader Nat).Retraces Code.readGamma := by
  apply (retraces_countZeros 32).bind
  intro _ zeros takes
  have narrow : zeros ≤ maxFieldWidth := by
    rcases Parse.takes_countZeros takes with ⟨below, -⟩ | ⟨rfl, -⟩
    · exact below.le
    · exact Nat.le_refl 32
  exact .ite (fun _ => retraces_pure _) fun _ => (retraces_field narrow).map _

theorem retraces_bin {size k i start : Nat} (word : size < wordSize) :
    (Code.readBin size k i start : FieldReader Nat).Retraces (Code.readBin size k i start) := by
  fun_induction (Code.readBin size k i start : Parse Nat) with
  | case1 i start last =>
      rw [Code.readBin, if_pos last]
      exact (retraces_uniform (by omega)).map _
  | case2 i start more ih =>
      have narrow := Code.binWidth_lt word more
      rw [Code.readBin, if_neg more]
      apply retraces_bit.bind
      intro _ further _
      refine Retraces.ite (fun _ => ih) fun _ => ?_
      exact (retraces_field (Nat.le_of_lt (narrow.trans (by decide)))).map _

theorem retraces_windowTail {size span reference : Nat} (word : size < wordSize)
    (within : span ≤ size) (inside : Bool) :
    (Code.readWindowTail size span reference inside : FieldReader Nat).Retraces
      (Code.readWindowTail size span reference inside) := by
  refine Retraces.ite (fun _ => ?_) fun _ => ?_
  · exact (retraces_uniform (by omega)).map _
  · exact (retraces_uniform (by omega)).map _

theorem retraces_bilevel {size span reference : Nat} (word : size < wordSize)
    (fits : Code.WindowFits size span reference) :
    (bilevel size span reference).Retraces (Number.readBilevel size span reference) := by
  unfold bilevel Number.readBilevel
  refine Retraces.ite (fun _ => retraces_pure 0) fun _ => ?_
  rw [if_neg (not_not_intro fits), if_neg (not_not_intro fits)]
  apply retraces_bit.bind
  intro _ inside _
  show Retraces _ (if (!inside) = true ∧ span = size then _ else _ : Parse Nat)
  split
  · exact retraces_fail _ _
  · exact retraces_windowTail word fits.2.1 inside

end Header.FieldReader

/-! ## Writers of plain bits -/

namespace Header.FieldWriter

theorem ofNat_zero (width : Nat) : Bits.ofNat width 0 = List.replicate width false := by
  induction width with
  | zero => rfl
  | succ width ih => rw [Bits.ofNat, ih, Nat.zero_testBit, List.replicate_succ]

/-- A number below `size` fits its fields, so that writing it never fails. -/
theorem uniform_of_lt {size value : Nat} (below : value < size) (word : size < wordSize) :
    uniform size value = .all (Code.uniform size value) := by
  unfold uniform Code.uniform
  by_cases few : size ≤ 1
  · rw [if_pos few, if_pos few]
    rfl
  rw [if_neg few, if_neg few, if_neg (Nat.not_le.mpr below)]
  have width_le : bitLength size ≤ 32 := bitLength_le word
  cases cut : Code.uniformSplit size with
  | mk width short =>
  obtain ⟨total, half⟩ := Code.uniformSplit_spec (Nat.lt_of_not_le few) cut
  obtain ⟨rfl, -⟩ := Prod.mk.inj cut
  have narrow : bitLength size - 1 ≤ maxFieldWidth := by
    unfold maxFieldWidth
    omega
  dsimp only
  by_cases isShort : value < short
  · rw [if_pos isShort, if_pos isShort]
    exact field_of_lt narrow (Nat.lt_of_lt_of_le isShort half)
  · have last : bit ((value - short) % 2 = 1) = .all (Bits.ofNat 1 (value - short)) := by
      simp only [Bits.ofNat, Nat.testBit_zero]
      rfl
    rw [if_neg isShort, if_neg isShort, field_of_lt narrow (by omega), last]
    exact all_bind_all _ _

theorem gamma_of_lt {value : Nat} (fits : value < wordSize) :
    gamma value = .all (Code.gamma value) := by
  unfold gamma Code.gamma
  by_cases largest : value = wordSize - 1
  · rw [if_pos largest, if_pos largest]
    exact field_of_lt (by decide) (by decide)
  · have positive : value + 1 ≠ 0 := Nat.succ_ne_zero value
    have few : (value + 1).log2 < 32 := by
      unfold wordSize at fits largest
      exact (Nat.log2_lt positive).mpr (by omega)
    have width_eq : bitLength (value + 1) = (value + 1).log2 + 1 := by
      rw [bitLength, if_neg positive]
    rw [if_neg largest, if_neg largest]
    dsimp only
    rw [field_of_lt few.le (Nat.two_pow_pos _), field_of_lt few Nat.lt_log2_self, all_bind_all,
      ofNat_zero, width_eq, Nat.add_sub_cancel]

/-- What is left of a number fits its fields. -/
theorem tail_binFrom {size k i start value : Nat} (above : start ≤ value) (below : value < size)
    (word : size < wordSize) :
    tail (Code.binFrom size k i start value).2 =
      .all (Code.binFrom size k i start value).2.bits := by
  fun_induction Code.binFrom size k i start value with
  | case1 i start last => exact uniform_of_lt (by omega) (by omega)
  | case2 i start more further path left cut ih =>
      rw [cut] at ih
      exact ih further
  | case3 i start more here =>
      have narrow := Code.binWidth_lt word more
      have offset : value - start < 2 ^ Code.binWidth i k := by
        unfold Code.binSize at here
        omega
      exact field_of_lt (Nat.le_of_lt (narrow.trans (by decide))) offset

theorem subexpBelow_of_lt {size value : Nat} (k : Nat) (below : value < size)
    (word : size < wordSize) :
    subexpBelow size k value = .all (Code.subexpBelow size k value) := by
  have fits := tail_binFrom (k := k) (i := 0) (Nat.zero_le value) below word
  unfold subexpBelow Code.subexpBelow
  generalize Code.binFrom size k 0 0 value = found at *
  obtain ⟨path, left⟩ := found
  dsimp only at *
  rw [fits]
  exact all_bind_all path left.bits

theorem bilevel_of_lt {size span reference value : Nat} (word : size < wordSize)
    (fits : Code.WindowFits size span reference) (below : value < size) :
    bilevel size span reference value = .all (Code.bilevel size span reference value) := by
  unfold bilevel Code.bilevel
  by_cases few : size ≤ 1
  · rw [if_pos few, if_pos few]
    rfl
  obtain ⟨length, within⟩ := Number.window_spec fits
  have accepted : ¬(¬Code.WindowFits size span reference ∨ size ≤ value) :=
    not_or.mpr ⟨not_not_intro fits, Nat.not_le.mpr below⟩
  rw [if_neg few, if_neg few, if_neg accepted]
  obtain ⟨-, spanned, -⟩ := fits
  unfold Code.windowTail
  generalize Code.window size span reference = window at *
  obtain ⟨low, high⟩ := window
  dsimp only at *
  by_cases inside : low ≤ value ∧ value ≤ high
  · rw [if_pos inside]
    dsimp only
    rw [uniform_of_lt (by omega) (by omega)]
    rfl
  · have closed : (if high < value then value - span else value) < size - span := by
      split <;> omega
    rw [if_neg inside]
    dsimp only
    rw [uniform_of_lt closed (by omega)]
    rfl

end Header.FieldWriter

/-! ## The same code -/

namespace Number

variable {number : Number} {item : Item Nat} {value : Nat}

theorem retraces_read (isCode : number.IsCode) (coded : number.item? = some item) :
    item.read.Retraces number.read := by
  cases number with
  | literal width =>
      cases coded
      exact FieldReader.retraces_field isCode
  | gamma =>
      cases coded
      exact FieldReader.retraces_gamma
  | uniform size =>
      cases coded
      exact FieldReader.retraces_uniform isCode.2
  | subexp k => cases coded
  | subexpBelow size k =>
      cases coded
      exact FieldReader.retraces_bin isCode.2
  | subexpAround size k reference =>
      cases coded
      have word : size < wordSize := Nat.lt_of_le_of_lt isCode.1 (by decide)
      exact (FieldReader.retraces_bin word).map (Code.unrecenterBelow size reference)
  | bilevel size span reference =>
      cases coded
      exact FieldReader.retraces_bilevel isCode.1 isCode.2

theorem write_eq_all (isCode : number.IsCode) (coded : number.item? = some item)
    (below : value < number.arity) : item.write value = .all (number.bits value) := by
  cases number with
  | literal width =>
      cases coded
      exact FieldWriter.field_of_lt isCode below
  | gamma =>
      cases coded
      exact FieldWriter.gamma_of_lt below
  | uniform size =>
      cases coded
      exact FieldWriter.uniform_of_lt below isCode.2
  | subexp k => cases coded
  | subexpBelow size k =>
      cases coded
      exact FieldWriter.subexpBelow_of_lt k below isCode.2
  | subexpAround size k reference =>
      cases coded
      have word : size < wordSize := Nat.lt_of_le_of_lt isCode.1 (by decide)
      have recentred : Code.recenterBelow size reference value < size :=
        Code.recenterBelow_lt (Nat.lt_of_lt_of_le isCode.2 isCode.1) isCode.2 below
      have accepted : ¬(size ≤ reference ∨ size ≤ value) :=
        not_or.mpr ⟨Nat.not_le.mpr isCode.2, Nat.not_le.mpr below⟩
      show FieldWriter.subexpAround size k reference value = _
      rw [FieldWriter.subexpAround, if_neg accepted]
      exact FieldWriter.subexpBelow_of_lt k recentred word
  | bilevel size span reference =>
      cases coded
      exact FieldWriter.bilevel_of_lt isCode.1 isCode.2 below

/-- A tile codes a value of a number with these bits, whatever its coder, and reads the value where
its coder delivers them, and no bit more. -/
structure CodedBy (number : Number) (value : Nat) (bits : List Bool) : Prop where
  put : ∀ {σ : Type} [Output σ] (tile : TileWriter σ),
    tile.put (.number number) value = tile.bits bits
  get : ∀ (tile : TileReader) (last : Reader), tile.coder.after? bits = some last →
    tile.get (.number number) = (.ok value, { tile with coder := last })

/-- **Headers and tiles have the same codes of numbers.** A number is coded by its bits in a tile, and
an item of a header with the same code carries the number in just these bits: either reader comes to
the number through them, whatever follows. -/
theorem sameCode (isCode : number.IsCode) (below : value < number.arity) :
    number.CodedBy value (number.bits value) ∧
      ∀ item, number.item? = some item →
        Carries (item.write value) item.read (number.bits value) value := by
  have takes := (follows_read (fits_of_lt_arity isCode below)).takes
  refine ⟨⟨fun _ => rfl, fun tile last => tile.run_of_takes takes⟩, ?_⟩
  intro item coded
  exact ⟨write_eq_all isCode coded below, retraces_read isCode coded takes⟩

/-- The largest number below the largest word is coded by as many ones as a word has digits, and there
is a tile that reads it. -/
theorem sameCode_ones :
    (uniform (wordSize - 1)).IsCode ∧ wordSize - 2 < (uniform (wordSize - 1)).arity ∧
      (uniform (wordSize - 1)).CodedBy (wordSize - 2) (List.replicate 32 true) ∧
      Carries (FieldWriter.uniform (wordSize - 1) (wordSize - 2)) (Code.readUniform (wordSize - 1))
        (List.replicate 32 true) (wordSize - 2) ∧
      ∃ payload, ((TileReader.new payload .initial true).get
        (.number (uniform (wordSize - 1)))).1 = .ok (wordSize - 2) := by
  have isCode : (uniform (wordSize - 1)).IsCode := by decide
  have below : wordSize - 2 < (uniform (wordSize - 1)).arity := by decide
  have bits_eq : (uniform (wordSize - 1)).bits (wordSize - 2) = List.replicate 32 true := by
    decide +kernel
  have same := sameCode isCode below
  rw [bits_eq] at same
  obtain ⟨coded, carried⟩ := same
  obtain ⟨payload, last, delivers⟩ : ∃ payload last,
      (Reader.ofBytes payload).after? (List.replicate 32 true) = some last :=
    ⟨_, Reader.exists_after?_finish (List.replicate 32 true)⟩
  have read := coded.get (.new payload .initial true) last delivers
  exact ⟨isCode, below, coded, carried _ rfl, payload, congrArg Prod.fst read⟩

/-! ## Any bits -/

/-- A tile and a header that are given the same bits read the same number from as many of them, which
is one that the code is for, or both refuse them. -/
def AgreeOn (number : Number) (item : Item Nat) (tile : TileReader) (bits : List Bool) : Prop :=
  (∃ value front back last, bits = front ++ back ∧ value < number.arity ∧
      item.read bits = .ok (value, back) ∧ tile.coder.after? front = some last ∧
      tile.get (.number number) = (.ok value, { tile with coder := last })) ∨
    (∃ error, item.read bits = .error error) ∧
      ∃ error, (tile.get (.number number)).1 = .error error

/-- A window of all numbers starts with the first. -/
theorem window_all {size reference : Nat} (below : reference < size) :
    (Code.window size size reference).1 = 0 := by
  unfold Code.window
  split
  · rfl
  · dsimp only
    split
    · exact Nat.sub_self size
    · dsimp only
      omega

/-- A header reads the number of all numbers outside of a window that holds them all. -/
theorem read_bilevel_all {size reference : Nat} (several : 1 < size) (below : reference < size)
    (rest : List Bool) :
    FieldReader.bilevel size size reference (false :: rest) = .ok (size, rest) := by
  have fits : Code.WindowFits size size reference := ⟨by omega, Nat.le_refl size, below⟩
  unfold FieldReader.bilevel
  rw [if_neg (Nat.not_le.mpr several), if_neg (not_not_intro fits)]
  have first : FieldReader.bit (false :: rest) = .ok (false, rest) := rfl
  refine (FieldReader.bind_of_ok first _).trans ?_
  unfold Code.readWindowTail
  rw [if_neg Bool.false_ne_true, window_all below, Nat.sub_self]
  have none : (Code.readUniform 0 : FieldReader Nat) rest = .ok (0, rest) := rfl
  rw [FieldReader.bind_of_ok none, if_pos (Nat.le_refl 0), Nat.zero_add]
  rfl

/-- A tile refuses a number outside of a window that holds all numbers. -/
theorem run_bilevel_all {size reference : Nat} (several : 1 < size) (below : reference < size)
    {tile : TileReader} {next : Reader} (first : tile.coder.bit = (.ok false, next)) :
    (tile.run (readBilevel size size reference)).1 = .error .corruptElement := by
  have fits : Code.WindowFits size size reference := ⟨by omega, Nat.le_refl size, below⟩
  unfold readBilevel
  rw [if_neg (Nat.not_le.mpr several), if_neg (not_not_intro fits)]
  show (tile.run (.bit _)).1 = _
  rw [TileReader.run, TileReader.bit, first]
  dsimp only
  show (TileReader.run _ (if (!false) = true ∧ size = size then _ else _)).1 = _
  rw [if_pos ⟨rfl, rfl⟩]
  rfl

/-- Where bits leave none of the numbers, a header reads one and a tile refuses them. -/
theorem read_of_leavesNone {bits : List Bool} (isCode : number.IsCode)
    (coded : number.item? = some item) (leaves : number.LeavesNone bits) {tile : TileReader}
    {last : Reader} (delivers : tile.coder.after? bits = some last) :
    item.read bits = .ok (number.arity, bits.tail) ∧
      (tile.get (.number number)).1 = .error .corruptElement := by
  cases number with
  | bilevel size span reference =>
      cases coded
      obtain ⟨several, rfl, outside⟩ := leaves
      obtain ⟨rest, rfl⟩ := List.head?_eq_some_iff.mp outside
      obtain ⟨next, first, -⟩ := Reader.after?_cons.mp delivers
      have below := isCode.2.2.2
      exact ⟨read_bilevel_all several below rest, run_bilevel_all several below first⟩
  | _ => exact leaves.elim

/-- The number that a header reads then is none that the code is for. -/
theorem not_agreeOn_of_leavesNone {bits : List Bool} (isCode : number.IsCode)
    (coded : number.item? = some item) (leaves : number.LeavesNone bits) {tile : TileReader}
    {last : Reader} (delivers : tile.coder.after? bits = some last) :
    ¬number.AgreeOn item tile bits := by
  obtain ⟨read, -⟩ := read_of_leavesNone isCode coded leaves delivers
  rintro (⟨value, front, back, _, -, below, read_value, -⟩ | ⟨⟨error, failed⟩, -⟩)
  · rw [read] at read_value
    obtain ⟨rfl, -⟩ := Prod.mk.inj (Except.ok.inj read_value)
    exact Nat.lt_irrefl _ below
  · rw [read] at failed
    cases failed

/-- **A tile and a header agree on all bits but those that leave none.** Any bits are what the coder
of some tile delivers. Where they are enough for the longest code, such a tile and a header that is
given the same bits read the same number from the same of them, and a number that the code is for,
unless the bits say that the number lies outside of a window which holds all. -/
theorem agreeOn_iff (isCode : number.IsCode) (coded : number.item? = some item) {bits : List Bool}
    (enough : Parse.longest ≤ bits.length) :
    (∃ payload last, (Reader.ofBytes payload).after? bits = some last) ∧
      ∀ (tile : TileReader) (last : Reader), tile.coder.after? bits = some last →
        (number.AgreeOn item tile bits ↔ ¬number.LeavesNone bits) := by
  refine ⟨⟨_, Reader.exists_after?_finish bits⟩, ?_⟩
  intro tile last delivers
  constructor
  · intro agree leaves
    exact not_agreeOn_of_leavesNone isCode coded leaves delivers agree
  · intro leaves
    have ends : ∀ k, number ≠ .subexp k := by
      rintro k rfl
      cases coded
    obtain ⟨value, front, back, rfl, takes⟩ := takes_some isCode ends enough leaves
    obtain ⟨middle, front_delivered, -⟩ := Reader.after?_append delivers
    obtain ⟨below, -⟩ := takes_read isCode takes
    exact .inl ⟨value, front, back, middle, rfl, below, retraces_read isCode coded takes back,
      front_delivered, tile.run_of_takes takes front_delivered⟩

/-- The payload that reads as 64 zeros. -/
def zerosPayload : List UInt8 := [0, 0, 0, 0, 0, 0, 0, 0, 128]

/-- A tile whose coder delivers zeros. -/
def zerosTile : TileReader := .new zerosPayload .initial true

theorem zerosTile_delivers :
    ∃ last, zerosTile.coder.after? (List.replicate 64 false) = some last := by
  have delivers : (zerosTile.coder.after? (List.replicate 64 false)).isSome := by decide +kernel
  exact Option.isSome_iff_exists.mp delivers

/-- Zeros are read as the largest word on both sides. -/
theorem agreeOn_zeros :
    ∃ last, zerosTile.coder.after? (List.replicate 64 false) = some last ∧
      gamma.AgreeOn .gamma zerosTile (List.replicate 64 false) := by
  obtain ⟨last, delivers⟩ := zerosTile_delivers
  exact ⟨last, delivers, ((agreeOn_iff (by decide) rfl (by decide)).2 _ last delivers).mpr not_false⟩

/-- **A window of all numbers does not read alike.** Both numbers below 2 lie in the window. Bits that
begin with a zero say that the number lies outside: a tile refuses them, and a header reads 2. -/
theorem not_agreeOn_wholeWindow :
    (bilevel 2 2 0).IsCode ∧
      (∃ last, zerosTile.coder.after? (List.replicate 64 false) = some last) ∧
      (Item.bilevel 2 2 0).read (List.replicate 64 false) = .ok (2, List.replicate 63 false) ∧
      (zerosTile.get (.number (bilevel 2 2 0))).1 = .error .corruptElement ∧
      ¬(bilevel 2 2 0).AgreeOn (.bilevel 2 2 0) zerosTile (List.replicate 64 false) := by
  obtain ⟨last, delivers⟩ := zerosTile_delivers
  have isCode : (bilevel 2 2 0).IsCode := by decide
  have leaves : (bilevel 2 2 0).LeavesNone (List.replicate 64 false) := ⟨by decide, rfl, rfl⟩
  obtain ⟨read, refused⟩ := read_of_leavesNone isCode rfl leaves delivers
  exact ⟨isCode, ⟨last, delivers⟩, read, refused,
    not_agreeOn_of_leavesNone isCode rfl leaves delivers⟩

end Number

end TileCoder
