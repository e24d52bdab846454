import TileCoder.Proofs.Element.Delta
import TileCoder.Proofs.Element.Digits
import TileCoder.Proofs.Element.Motion
import TileCoder.Proofs.Recoding.Blocks

/-!
# Recoding numbers

Every code for the numbers below a size is complete: whatever digits are read are those of the number
that they are read as, and that number is below the size. So are the codes of changes and of motion
vectors within their limits. A component of a motion vector is a step of its precision, since what
the precision leaves out is read as its largest value.
-/

namespace TileCoder

open Parse (takes_pure takes_readSymbol)
open Plan (codes_pure codes_symbol codes_literal)

/-! ## Integer codes -/

namespace Parse

variable {steps : List Step} {number : Nat}

/-- What is read as a uniform code is that of a number below the size. -/
theorem takes_uniform {size : Nat} (positive : 0 < size)
    (takes : (Code.readUniform size : Parse Nat).Takes steps number) :
    number < size ∧ steps = (Code.uniform size number).map .bit := by
  unfold Code.readUniform at takes
  unfold Code.uniform
  by_cases few : size ≤ 1
  · rw [if_pos few] at takes ⊢
    obtain ⟨rfl, rfl⟩ := takes_pure.mp takes
    exact ⟨positive, rfl⟩
  rw [if_neg few] at takes ⊢
  cases cut : Code.uniformSplit size with
  | mk width short =>
  rw [cut] at takes
  obtain ⟨total, half⟩ := Code.uniformSplit_spec (Nat.lt_of_not_le few) cut
  obtain ⟨value, rest, fits, rfl, takes_rest⟩ := Takes.of_literal takes
  dsimp only
  by_cases isShort : value < short
  · rw [if_pos isShort] at takes_rest
    obtain ⟨rfl, rfl⟩ := takes_pure.mp takes_rest
    rw [if_pos isShort, List.append_nil]
    exact ⟨by omega, rfl⟩
  · rw [if_neg isShort] at takes_rest
    obtain ⟨last, rfl, takes_last⟩ := takes_rest.of_map
    obtain ⟨last_lt, rfl⟩ := takes_literal takes_last
    -- the last digit tells apart the two numbers that share the others
    have shared : short + (2 * value - short + last - short) / 2 = value := by omega
    have parity : (2 * value - short + last - short) % 2 = last % 2 := by omega
    have digit : Bits.ofNat 1 (2 * value - short + last - short) = Bits.ofNat 1 last := by
      simp only [Bits.ofNat, Nat.testBit_zero, parity]
    rw [if_neg (by omega), shared, digit, List.map_append]
    exact ⟨by omega, rfl⟩

/-- What is read from a bin on lies in that bin or in a later one, and below the size. -/
theorem takes_bin {size k i start : Nat} (positive : start < size)
    (takes : (Code.readBin size k i start : Parse Nat).Takes steps number) :
    start ≤ number ∧ number < size ∧
      steps = ((Code.binFrom size k i start number).1 ++
        (Code.binFrom size k i start number).2.bits).map .bit := by
  fun_induction (Code.readBin size k i start : Parse Nat) generalizing steps with
  | case1 i start last =>
      obtain ⟨value, rfl, takes_value⟩ := takes.of_map
      obtain ⟨value_lt, rfl⟩ := takes_uniform (by omega) takes_value
      rw [Code.binFrom, if_pos last, Nat.add_sub_cancel]
      exact ⟨Nat.le_add_left _ _, by omega, rfl⟩
  | case2 i start more ih =>
      have room := Code.binSize_pos i k
      obtain ⟨further, rest, rfl, takes_rest⟩ := Takes.of_bit takes
      cases further with
      | true =>
          obtain ⟨above, below, rfl⟩ := ih (by omega) takes_rest
          rw [Code.binFrom.eq_def size k i start number, if_neg more, if_pos above]
          exact ⟨by omega, below, rfl⟩
      | false =>
          obtain ⟨value, rfl, takes_value⟩ := takes_rest.of_map
          obtain ⟨value_lt, rfl⟩ := takes_literal takes_value
          have inside : ¬start + Code.binSize i k ≤ value + start := by
            unfold Code.binSize
            omega
          rw [Code.binFrom, if_neg more, if_neg inside, Nat.add_sub_cancel]
          exact ⟨Nat.le_add_left _ _, by omega, rfl⟩

theorem takes_subexpAround {size k reference : Nat} (small : reference < 2 ^ 31)
    (reference_lt : reference < size)
    (takes : (Code.readSubexpAround size k reference : Parse Nat).Takes steps number) :
    number < size ∧ steps = (Code.subexpAround size k reference number).map .bit := by
  obtain ⟨code, rfl, takes_code⟩ := Takes.of_map takes
  obtain ⟨-, code_lt, rfl⟩ := takes_bin (Nat.zero_lt_of_lt reference_lt) takes_code
  refine ⟨Code.unrecenterBelow_lt small reference_lt code_lt, ?_⟩
  rw [Code.subexpAround, Code.recenterBelow_unrecenterBelow small reference_lt code_lt]
  rfl

/-- A signed number is read in its range, if its reference is in the range. -/
theorem takes_signedSubexp {low high reference value : Int} {k : Nat} (narrow : high - low ≤ 2 ^ 31)
    (above : low ≤ reference) (below : reference < high)
    (takes : (Code.readSignedSubexp low high k reference : Parse Int).Takes steps value) :
    low ≤ value ∧ value < high ∧
      steps = (Code.signedSubexp low high k reference value).map .bit := by
  have whole := Code.distance_eq (show low ≤ high by omega) narrow
  have from_reference := Code.distance_eq above (by omega)
  obtain ⟨word, value_eq, takes_word⟩ := Takes.of_map takes
  obtain ⟨word_lt, rfl⟩ := takes_subexpAround (by omega) (by omega) takes_word
  rw [Code.signedWord_of_lt (by omega)] at value_eq
  have from_value := Code.distance_eq (show low ≤ value by omega) (by omega)
  rw [Code.signedSubexp, show Code.distance low value = word by omega]
  exact ⟨by omega, by omega, rfl⟩

end Parse

/-- A strength of at most a byte fits its digits and is written with them. -/
theorem recodes_strength {digits : Nat} (few : digits ≤ 8) {steps : List Step} {value : Nat}
    (takes : (readStrength digits).Takes steps value) :
    (value < 2 ^ digits ∧ value < 256) ∧ (writeStrength digits value).Codes () steps := by
  obtain ⟨number, rfl, takes_number⟩ := Parse.Takes.of_map takes
  obtain ⟨fits, rfl⟩ := Parse.takes_literal takes_number
  have byte : 2 ^ digits ≤ 2 ^ 8 := Nat.pow_le_pow_right (by decide) few
  rw [Nat.mod_eq_of_lt (by omega)]
  exact ⟨⟨fits, by omega⟩, codes_literal _ _⟩

/-! ## Signs -/

theorem natAbs_signed (negative : Bool) (magnitude : Nat) :
    (if negative then -(magnitude : Int) else magnitude).natAbs = magnitude := by
  cases negative <;> simp

theorem signed_lt_zero (negative : Bool) {magnitude : Nat} (positive : 0 < magnitude) :
    decide ((if negative then -(magnitude : Int) else magnitude) < 0) = negative := by
  cases negative
  · simp
  · simp only [if_true, decide_eq_true_eq]
    omega

/-! ## Changes -/

namespace Delta

/-- A magnitude with digits of its own is within the limit, and they are its own digits. -/
theorem tail_of_digits {digits rest : Nat} (few : digits < 2 ^ 3) (rest_lt : rest < 2 ^ (digits + 1)) :
    escape ≤ rest + 2 ^ (digits + 1) + 1 ∧ rest + 2 ^ (digits + 1) + 1 ≤ limit ∧
      (rest + 2 ^ (digits + 1) + 1 - 1).log2 = digits + 1 := by
  have low : 2 ^ 1 ≤ 2 ^ (digits + 1) := Nat.pow_le_pow_right (by decide) (by omega)
  have high : 2 ^ (digits + 1) ≤ 2 ^ 8 := Nat.pow_le_pow_right (by decide) (by omega)
  unfold escape limit
  refine ⟨by omega, by omega, ?_⟩
  rw [Nat.add_sub_cancel, Nat.log2_eq_iff (by omega), Nat.pow_succ 2 (digits + 1)]
  omega

/-- What was read for a magnitude is written before its sign. -/
theorem codes_tail {symbol magnitude : Nat} {front back : List Step} {negative : Bool}
    (inside : symbol < 4) (takes : (readMagnitude symbol).Takes front magnitude)
    (sign : Plan.Codes (if 0 < magnitude then Emit.one (.bit negative) else pure ()) () back) :
    min magnitude escape = symbol ∧ magnitude ≤ limit ∧
      (writeTail magnitude negative).Codes () (front ++ back) := by
  unfold readMagnitude at takes
  unfold writeTail
  by_cases small : symbol < escape
  · rw [if_pos small] at takes
    obtain ⟨rfl, rfl⟩ := takes_pure.mp takes
    rw [if_neg (Nat.not_le_of_lt small)]
    exact ⟨Nat.min_eq_left small.le, by unfold limit; omega, sign⟩
  · rw [if_neg small] at takes
    obtain ⟨digits, later, few, rfl, takes_rest⟩ := takes.of_literal
    obtain ⟨rest, rfl, takes_last⟩ := takes_rest.of_map
    obtain ⟨rest_lt, rfl⟩ := Parse.takes_literal takes_last
    obtain ⟨large, within, log⟩ := tail_of_digits few rest_lt
    have symbol_eq : symbol = escape := by
      unfold escape at *
      omega
    rw [if_pos large, log, List.append_assoc]
    dsimp only
    rw [Nat.add_sub_cancel digits 1]
    refine ⟨(Nat.min_eq_right large).trans symbol_eq.symm, within, (codes_literal 3 digits).bind ?_⟩
    rw [show rest + 2 ^ (digits + 1) + 1 - 2 ^ (digits + 1) - 1 = rest by omega]
    exact (codes_literal _ _).bind sign

theorem recodes {slot : Slot} (symbols : slot.table.symbols = 4) {steps : List Step} {value : Int}
    (takes : (read slot).Takes steps value) :
    value.natAbs ≤ limit ∧ (write slot value).Codes () steps := by
  obtain ⟨symbol, rest, inside, rfl, takes_rest⟩ := Parse.Takes.of_symbol takes
  rw [symbols] at inside
  obtain ⟨magnitude, front, back, rfl, takes_magnitude, takes_sign⟩ := takes_rest.of_bind
  unfold write
  by_cases zero : magnitude = 0
  · rw [if_pos zero] at takes_sign
    obtain ⟨rfl, rfl⟩ := takes_pure.mp takes_sign
    subst zero
    obtain ⟨symbol_eq, within, codes⟩ := codes_tail inside takes_magnitude (codes_pure ())
    rw [show min (0 : Int).natAbs escape = symbol from symbol_eq]
    exact ⟨within, .after codes⟩
  · rw [if_neg zero] at takes_sign
    obtain ⟨negative, rfl, takes_bit⟩ := takes_sign.of_map
    rw [Parse.takes_bit takes_bit]
    have sign : Plan.Codes (if 0 < magnitude then Emit.one (.bit negative) else pure ()) ()
        [.bit negative] := by
      rw [if_pos (Nat.pos_of_ne_zero zero)]
      rfl
    obtain ⟨symbol_eq, within, codes⟩ := codes_tail inside takes_magnitude sign
    rw [natAbs_signed, signed_lt_zero negative (Nat.pos_of_ne_zero zero), symbol_eq]
    exact ⟨within, .after codes⟩

theorem recodes_quantizer : Recodes readQuantizer writeQuantizer := by
  intro steps value takes
  obtain ⟨within, codes⟩ := recodes rfl takes
  exact .unless (Nat.not_lt_of_le within) codes

theorem recodes_each (each : Bool) {count i : Nat} {steps : List Step} {values : List Int}
    (takes : (readEach each count i).Takes steps values) :
    values.length = count ∧ (∀ value ∈ values, value.natAbs ≤ limit) ∧
      (writeEach each i values).Codes () steps := by
  induction count generalizing i steps values with
  | zero =>
      obtain ⟨rfl, rfl⟩ := takes_pure.mp takes
      exact ⟨rfl, nofun, codes_pure ()⟩
  | succ count ih =>
      obtain ⟨value, front, back, rfl, takes_value, takes_rest⟩ := Parse.Takes.of_bind takes
      obtain ⟨rest, rfl, takes_last⟩ := takes_rest.of_map
      have symbols : (filterSlot each i).table.symbols = 4 := by cases each <;> rfl
      obtain ⟨here, codes⟩ := recodes symbols takes_value
      obtain ⟨length, later, rest_codes⟩ := ih takes_last
      exact ⟨congrArg (· + 1) length, List.forall_mem_cons.mpr ⟨here, later⟩,
        codes.bind rest_codes⟩

theorem recodes_filters (each : Bool) (count : Nat) :
    Recodes (readFilters each count) (writeFilters each count) := by
  intro steps values takes
  obtain ⟨few, takes_each⟩ := Parse.Takes.of_unless takes
  obtain ⟨length, within, codes⟩ := recodes_each each takes_each
  refine .unless (not_or.mpr ⟨few, not_not_intro length⟩) (.unless ?_ codes)
  simpa using within

end Delta

/-! ## Motion vectors -/

namespace MotionVector

/-- An offset that its class counts is found again in its class. -/
theorem classOf_classBase {cls offset : Nat} (few : cls < classes)
    (inside : offset < 8 * wholeSize cls) : classOf (classBase cls + offset) = (cls, offset) := by
  unfold classes at few
  unfold wholeSize at inside
  have found : (if 8192 ≤ classBase cls + offset then 10
      else ((classBase cls + offset) / 8).log2) = cls := by
    unfold classBase
    by_cases first : cls = 0
    · subst first
      rw [if_pos rfl] at inside ⊢
      rw [if_neg (by omega), log2_of_lt_two (by omega)]
    · rw [if_neg first] at inside ⊢
      rw [Nat.pow_add]
      by_cases last : cls = 10
      · subst last
        rw [if_pos (by omega)]
      · have below : 2 ^ cls ≤ 2 ^ 9 := Nat.pow_le_pow_right (by decide) (by omega)
        rw [if_neg (by omega), Nat.log2_eq_iff (by omega), Nat.pow_succ]
        omega
  unfold classOf
  dsimp only
  rw [found, Nat.add_sub_cancel_left]

theorem recodes_wholeDigits {table : Table} (symbols : table.symbols = 2) {digits i number : Nat}
    {steps : List Step} (takes : (readWholeDigits table digits i).Takes steps number) :
    number < 2 ^ digits ∧ ∀ whole, whole / 2 ^ i % 2 ^ digits = number →
      (writeWholeDigits table whole digits i).Codes () steps := by
  induction digits generalizing i number steps with
  | zero =>
      obtain ⟨rfl, rfl⟩ := takes_pure.mp takes
      exact ⟨Nat.one_pos, fun _ _ => codes_pure ()⟩
  | succ digits ih =>
      obtain ⟨digit, later, inside, rfl, takes_rest⟩ := Parse.Takes.of_symbol takes
      obtain ⟨rest, rfl, takes_last⟩ := takes_rest.of_map
      obtain ⟨rest_lt, codes⟩ := ih takes_last
      have digit_lt : digit < 2 := symbols ▸ inside
      rw [Nat.pow_succ]
      refine ⟨by omega, ?_⟩
      intro whole parts
      -- the lowest digit is the parity of what is left, and the others are those of its half
      rw [Nat.mul_comm, Nat.mod_mul] at parts
      have rest_eq : whole / 2 ^ (i + 1) % 2 ^ digits = rest := by
        rw [Nat.pow_succ, ← Nat.div_div_eq_div_mul]
        omega
      rw [writeWholeDigits, Plan.flag, Nat.toNat_testBit,
        show whole / 2 ^ i % 2 = digit by omega]
      exact .after (codes whole rest_eq)

theorem recodes_whole (axis : Axis) {cls whole : Nat} {steps : List Step}
    (takes : (readWhole (.of axis) cls).Takes steps whole) :
    whole < wholeSize cls ∧ (writeWhole (.of axis) cls whole).Codes () steps := by
  unfold readWhole at takes
  unfold writeWhole wholeSize
  by_cases first : cls = 0
  · rw [if_pos first] at takes
    rw [if_pos first, if_pos first]
    obtain ⟨rfl, inside⟩ := takes_readSymbol.mp takes
    have two : (ComponentTables.of axis).whole0.symbols = 2 := by cases axis <;> rfl
    exact ⟨two ▸ inside, codes_symbol _ _⟩
  · rw [if_neg first] at takes
    rw [if_neg first, if_neg first]
    have two : (ComponentTables.of axis).whole.symbols = 2 := by cases axis <;> rfl
    obtain ⟨whole_lt, codes⟩ := recodes_wholeDigits two takes
    exact ⟨whole_lt, codes whole (by rw [Nat.pow_zero, Nat.div_one, Nat.mod_eq_of_lt whole_lt])⟩

/-- Fractions that the precision leaves out are the largest, so that a magnitude is a step. -/
theorem magnitude_mod_step {precision : MotionPrecision} {cls whole quarter eighth : Nat}
    (quarter_default : codesQuarters precision = false → quarter = 3)
    (eighth_default : codesEighths precision = false → eighth = 1) :
    ((classBase cls + (8 * whole + 2 * quarter + eighth) + 1 : Nat) : Int) % precision.step = 0 := by
  have aligned := classBase_mod cls
  cases precision with
  | whole =>
      rw [quarter_default rfl, eighth_default rfl, MotionPrecision.step]
      omega
  | quarter =>
      rw [eighth_default rfl, MotionPrecision.step]
      omega
  | eighth => exact Int.emod_one _

theorem recodes_component (axis : Axis) (precision : MotionPrecision) {steps : List Step}
    {value : Int} (takes : (readComponent axis precision).Takes steps value) :
    IsComponent value ∧ value % precision.step = 0 ∧
      (writeComponent axis precision value).Codes () steps := by
  have sign_two : (ComponentTables.of axis).sign.only.table.symbols = 2 := by cases axis <;> rfl
  have cls_symbols : (ComponentTables.of axis).cls.only.table.symbols = classes := by
    cases axis <;> rfl
  obtain ⟨negative, later, rfl, takes_cls⟩ := Parse.Takes.of_flag sign_two takes
  obtain ⟨cls, rest, cls_lt, rfl, takes_magnitude⟩ := takes_cls.of_symbol
  obtain ⟨whole, front, back, rfl, takes_whole, takes_fractions⟩ := takes_magnitude.of_bind
  obtain ⟨quarter, quarters, others, rfl, quarter_coded, quarter_default, takes_eighth⟩ :=
    takes_fractions.of_optional
  obtain ⟨eighth, eighths, last, rfl, eighth_coded, eighth_default, takes_value⟩ :=
    takes_eighth.of_optional
  rw [cls_symbols] at cls_lt
  obtain ⟨whole_lt, whole_codes⟩ := recodes_whole axis takes_whole
  have quarter_lt : quarter < 4 := by
    cases coded : codesQuarters precision with
    | true =>
        obtain ⟨-, inside⟩ := takes_readSymbol.mp (quarter_coded coded)
        rwa [quarters_lt_symbols] at inside
    | false =>
        rw [(quarter_default coded).2]
        decide
  have eighth_lt : eighth < 2 := by
    cases coded : codesEighths precision with
    | true =>
        obtain ⟨-, inside⟩ := takes_readSymbol.mp (eighth_coded coded)
        have two : (eighthSlot (.of axis) cls).table.symbols = 2 := by
          unfold eighthSlot
          cases axis <;> split <;> rfl
        rwa [two] at inside
    | false =>
        rw [(eighth_default coded).2]
        decide
  have isStep : ((classBase cls + (8 * whole + 2 * quarter + eighth) + 1 : Nat) : Int) %
      precision.step = 0 :=
    magnitude_mod_step (fun coded => (quarter_default coded).2)
      (fun coded => (eighth_default coded).2)
  obtain ⟨within, rfl, value_eq⟩ := Parse.takes_guarded.mp takes_value
  generalize offset_eq : 8 * whole + 2 * quarter + eighth = offset at *
  have cut : classOf (value.natAbs - 1) = (cls, offset) := by
    rw [value_eq, natAbs_signed, Nat.add_sub_cancel]
    exact classOf_classBase cls_lt (by omega)
  have sign : decide (value < 0) = negative := by
    rw [value_eq]
    exact signed_lt_zero negative (Nat.succ_pos _)
  have nonzero : value ≠ 0 := by
    rw [value_eq, ← Int.natAbs_ne_zero, natAbs_signed]
    exact Nat.succ_ne_zero _
  refine ⟨⟨nonzero, by rwa [value_eq]⟩, ?_, ?_⟩
  · have divides := Int.dvd_of_emod_eq_zero isStep
    rw [value_eq]
    apply Int.emod_eq_zero_of_dvd
    cases negative
    · exact divides
    · exact Int.dvd_neg.mpr divides
  · unfold writeComponent
    rw [cut, sign]
    dsimp only
    rw [show offset / 8 = whole by omega, show offset / 2 % 4 = quarter by omega,
      show offset % 2 = eighth by omega, List.append_nil]
    refine .after (.after (whole_codes.bind (.optional ?_ (fun coded => (quarter_default coded).1)
      (.optional_ending ?_ fun coded => (eighth_default coded).1))))
    · intro coded
      obtain ⟨rfl, -⟩ := takes_readSymbol.mp (quarter_coded coded)
      exact codes_symbol _ _
    · intro coded
      obtain ⟨rfl, -⟩ := takes_readSymbol.mp (eighth_coded coded)
      exact codes_symbol _ _

/-- A joint says which components of a vector are not zero. -/
theorem joint_of_components {joint : MotionJoint} {row column : Int}
    (row_coded : joint.hasRow = decide (row ≠ 0))
    (column_coded : joint.hasColumn = decide (column ≠ 0)) :
    MotionVector.joint ⟨row, column⟩ = joint := by
  unfold MotionVector.joint
  by_cases no_row : row = 0 <;> by_cases no_column : column = 0 <;>
    cases joint <;> simp_all [MotionJoint.hasRow, MotionJoint.hasColumn]

/-- A component that is only read under a condition, and how it is written. -/
theorem recodes_optionalComponent (axis : Axis) {precision : MotionPrecision} {coded : Bool}
    {steps : List Step} {value : Int}
    (taken : coded = true → (readComponent axis precision).Takes steps value)
    (default : coded = false → steps = [] ∧ value = 0) :
    IsCodable precision value ∧ coded = decide (value ≠ 0) ∧
      (coded = true → (writeComponent axis precision value).Codes () steps) := by
  cases coded with
  | true =>
      obtain ⟨⟨nonzero, above, below⟩, isStep, codes⟩ := recodes_component axis precision (taken rfl)
      exact ⟨⟨above, below, isStep⟩, (decide_eq_true nonzero).symm, fun _ => codes⟩
  | false =>
      obtain ⟨-, rfl⟩ := default rfl
      exact ⟨⟨by decide, by decide, Int.zero_emod _⟩, rfl, nofun⟩

theorem recodes (predicted : MotionVector) (precision : MotionPrecision) :
    Recodes (read predicted precision) (write predicted precision) := by
  intro steps mv takes
  obtain ⟨symbol, later, -, rfl, takes_joint⟩ := Parse.Takes.of_symbol takes
  obtain ⟨joint, nothing, rest, rfl, takes_found, takes_row⟩ := takes_joint.of_bind
  obtain ⟨rfl, found⟩ := Parse.takes_ofOption.mp takes_found
  obtain ⟨row, front, back, rfl, row_taken, row_default, takes_column⟩ := takes_row.of_optional
  obtain ⟨column, middle, last, rfl, column_taken, column_default, takes_valid⟩ :=
    takes_column.of_optional
  obtain ⟨valid, rfl, rfl⟩ := Parse.takes_guarded.mp takes_valid
  obtain ⟨row_codable, row_coded, row_codes⟩ :=
    recodes_optionalComponent .row row_taken row_default
  obtain ⟨column_codable, column_coded, column_codes⟩ :=
    recodes_optionalComponent .column column_taken column_default
  obtain rfl := index_of_getElem? (by decide) all_getElem?_joint found
  have difference : MotionVector.minus ⟨predicted.row + row, predicted.column + column⟩ predicted =
      ⟨row, column⟩ := by
    unfold minus
    dsimp only
    rw [add_sub_cancel_left, add_sub_cancel_left]
  unfold write
  dsimp only
  rw [difference, joint_of_components row_coded column_coded, List.append_nil, List.nil_append]
  refine .unless ?_ (.after (.optional row_codes (fun coded => (row_default coded).1)
    (.optional_ending column_codes fun coded => (column_default coded).1)))
  simp only [not_or, not_not]
  exact ⟨valid, row_codable, column_codable⟩

end MotionVector

end TileCoder
