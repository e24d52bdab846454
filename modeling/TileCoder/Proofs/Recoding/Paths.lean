import TileCoder.Proofs.Element.Follows

/-!
# What a reader has come through

`Parse.Takes read steps value` says that a reader comes to a value through these steps, whatever they
were made from: of a symbol it is only known that it is one of its row's. A reader comes to one value
at most through the same steps (`Takes.unique`), and what it has come through is taken apart along
the program, by one lemma for each thing that a reader does first (`Takes.of_bind`, `Takes.of_symbol`
and so on).

On the other side `Plan.Codes plan steps` says that a plan is accepted and consists of just these
steps. `Recodes read write` puts both together: a value is written with the steps that it was read
through.
-/

namespace TileCoder

open scoped Plain

/-- A reader comes through these steps to a value. -/
inductive Parse.Takes {α : Type} : Parse α → List Step → α → Prop where
  | done (value : α) : Takes (.done value) [] value
  | symbol {slot : Slot} {value : Nat} {next : Nat → Parse α} {steps : List Step} {result : α}
      (inside : value < slot.table.symbols) (tail : Takes (next value) steps result) :
      Takes (.symbol slot next) (.symbol slot value :: steps) result
  | gathered {slot : Slot} {symbols : List Nat} {flag : Bool} {next : Bool → Parse α}
      {steps : List Step} {result : α} (tail : Takes (next flag) steps result) :
      Takes (.gathered slot symbols next) (.gathered slot symbols flag :: steps) result
  | bit {bit : Bool} {next : Bool → Parse α} {steps : List Step} {result : α}
      (tail : Takes (next bit) steps result) : Takes (.bit next) (.bit bit :: steps) result
  | remember {plane : Plane} {memory : RestorationMemory} {next : Parse α} {steps : List Step}
      {result : α} (tail : Takes next steps result) :
      Takes (.remember plane memory next) (.remember plane memory :: steps) result

namespace Parse

variable {α β γ : Type} {read : Parse α} {steps : List Step} {value : α} {result : β}

theorem Follows.takes (follows : read.Follows steps value) : read.Takes steps value := by
  induction follows with
  | done value => exact .done value
  | symbol inside _ ih => exact .symbol inside ih
  | gathered _ _ ih => exact .gathered ih
  | bit _ ih => exact .bit ih
  | remember _ _ ih => exact .remember ih

/-- The steps decide where a reader goes. -/
theorem Takes.unique {other : α} (first : read.Takes steps value)
    (second : read.Takes steps other) : value = other := by
  induction first with
  | done => cases second; rfl
  | symbol _ _ ih => cases second with | symbol _ tail => exact ih tail
  | gathered _ ih => cases second with | gathered tail => exact ih tail
  | bit _ ih => cases second with | bit tail => exact ih tail
  | remember _ ih => cases second with | remember tail => exact ih tail

/-! ## What was done first -/

/-- What two readers take one after the other is what the first takes and then the second. -/
theorem Takes.of_bind {next : α → Parse β} (takes : (read >>= next).Takes steps result) :
    ∃ value front back, steps = front ++ back ∧ read.Takes front value ∧
      (next value).Takes back result := by
  induction read generalizing steps with
  | done value => exact ⟨value, [], steps, rfl, .done value, takes⟩
  | fail error => cases takes
  | symbol slot more ih =>
      cases takes with
      | symbol inside tail =>
          obtain ⟨value, front, back, rfl, here, there⟩ := ih _ tail
          exact ⟨value, _, back, rfl, .symbol inside here, there⟩
  | gathered slot symbols more ih =>
      cases takes with
      | gathered tail =>
          obtain ⟨value, front, back, rfl, here, there⟩ := ih _ tail
          exact ⟨value, _, back, rfl, .gathered here, there⟩
  | bit more ih =>
      cases takes with
      | bit tail =>
          obtain ⟨value, front, back, rfl, here, there⟩ := ih _ tail
          exact ⟨value, _, back, rfl, .bit here, there⟩
  | remember plane memory more ih =>
      cases takes with
      | remember tail =>
          obtain ⟨value, front, back, rfl, here, there⟩ := ih tail
          exact ⟨value, _, back, rfl, .remember here, there⟩

/-- What is taken where the value of a reader is only changed. -/
theorem Takes.of_map {change : α → β}
    (takes : (read >>= fun value => pure (change value)).Takes steps result) :
    ∃ value, result = change value ∧ read.Takes steps value := by
  obtain ⟨value, front, back, rfl, here, there⟩ := takes.of_bind
  cases there
  exact ⟨value, rfl, by simpa using here⟩

theorem takes_pure {other : α} :
    (pure value : Parse α).Takes steps other ↔ steps = [] ∧ other = value := by
  constructor
  · rintro ⟨⟩
    exact ⟨rfl, rfl⟩
  · rintro ⟨rfl, rfl⟩
    exact .done other

theorem not_takes_fail {error : CodingError} : ¬(fail error : Parse α).Takes steps value := nofun

/-- A value is only taken where the reader accepts it. -/
theorem takes_guarded {accepted : Prop} [Decidable accepted] {error : CodingError} {other : α} :
    (if accepted then pure value else fail error : Parse α).Takes steps other ↔
      accepted ∧ steps = [] ∧ other = value := by
  split
  next holds => exact takes_pure.trans (and_iff_right holds).symm
  next fails => exact iff_of_false not_takes_fail fun both => fails both.1

theorem takes_ofOption {found : Option α} :
    (ofOption found).Takes steps value ↔ steps = [] ∧ found = some value := by
  cases found with
  | none => exact iff_of_false not_takes_fail (by simp)
  | some other =>
      show (pure other : Parse α).Takes steps value ↔ _
      rw [takes_pure, Option.some_inj, eq_comm (a := value)]

theorem takes_readSymbol {slot : Slot} {value : Nat} :
    (readSymbol slot).Takes steps value ↔
      steps = [.symbol slot value] ∧ value < slot.table.symbols := by
  constructor
  · rintro (_ | ⟨inside, ⟨⟩⟩)
    exact ⟨rfl, inside⟩
  · rintro ⟨rfl, inside⟩
    exact .symbol inside (.done value)

/-- A flag of a row of two symbols is the symbol that was read. -/
theorem takes_readFlag {slot : Slot} (two : slot.table.symbols = 2) {flag : Bool}
    (takes : (readFlag slot).Takes steps flag) : steps = [.symbol slot flag.toNat] := by
  rcases takes with _ | @⟨_, symbol, _, _, _, inside, ⟨⟩⟩
  have same : symbol = (decide (symbol ≠ 0)).toNat := by
    by_cases zero : symbol = 0
    · subst zero
      rfl
    · simp only [zero, ne_eq, not_false_eq_true, decide_true, Bool.toNat_true]
      omega
  rw [← same]

theorem takes_bit {bit : Bool} (takes : (Code.bit : Parse Bool).Takes steps bit) :
    steps = [.bit bit] := by
  rcases takes with _ | _ | _ | ⟨⟨⟩⟩
  rfl

theorem Takes.of_symbol {slot : Slot} {next : Nat → Parse β}
    (takes : (readSymbol slot >>= next).Takes steps result) :
    ∃ symbol rest, symbol < slot.table.symbols ∧ steps = .symbol slot symbol :: rest ∧
      (next symbol).Takes rest result := by
  obtain ⟨symbol, front, rest, rfl, here, there⟩ := takes.of_bind
  obtain ⟨rfl, inside⟩ := takes_readSymbol.mp here
  exact ⟨symbol, rest, inside, rfl, there⟩

/-- What is taken where a value is found for a symbol. -/
theorem Takes.of_found {slot : Slot} {ofSymbol : Nat → Option α}
    (takes : (readSymbol slot >>= fun symbol => ofOption (ofSymbol symbol)).Takes steps value) :
    ∃ symbol < slot.table.symbols, steps = [.symbol slot symbol] ∧
      ofSymbol symbol = some value := by
  obtain ⟨symbol, rest, inside, rfl, last⟩ := takes.of_symbol
  obtain ⟨rfl, found⟩ := takes_ofOption.mp last
  exact ⟨symbol, inside, rfl, found⟩

theorem Takes.of_flag {slot : Slot} (two : slot.table.symbols = 2) {next : Bool → Parse β}
    (takes : (readFlag slot >>= next).Takes steps result) :
    ∃ flag rest, steps = .symbol slot flag.toNat :: rest ∧ (next flag).Takes rest result := by
  obtain ⟨flag, front, rest, rfl, here, there⟩ := takes.of_bind
  rw [takes_readFlag two here]
  exact ⟨flag, rest, rfl, there⟩

theorem Takes.of_bit {next : Bool → Parse β}
    (takes : ((Code.bit : Parse Bool) >>= next).Takes steps result) :
    ∃ bit rest, steps = .bit bit :: rest ∧ (next bit).Takes rest result := by
  obtain ⟨bit, front, rest, rfl, here, there⟩ := takes.of_bind
  rw [takes_bit here]
  exact ⟨bit, rest, rfl, there⟩

theorem Takes.of_check {checked : Except CodingError α} {next : α → Parse β}
    (takes : ((liftM checked : Parse α) >>= next).Takes steps result) :
    ∃ value, checked = .ok value ∧ (next value).Takes steps result := by
  cases checked with
  | error error => exact absurd takes not_takes_fail
  | ok value => exact ⟨value, rfl, takes⟩

/-- A reader that comes to a value has not given up before. -/
theorem Takes.of_unless {refused : Prop} [Decidable refused] {error : CodingError}
    {next : γ → Parse α} (takes :
      (if refused then (fail error : Parse γ) >>= next else read).Takes steps value) :
    ¬refused ∧ read.Takes steps value := by
  split at takes
  · exact absurd takes not_takes_fail
  next accepted => exact ⟨accepted, takes⟩

theorem Takes.of_given {accepted : Prop} [Decidable accepted] {error : CodingError}
    {next : γ → Parse α} (takes :
      (if ¬accepted then (fail error : Parse γ) >>= next else read).Takes steps value) :
    accepted ∧ read.Takes steps value := by
  obtain ⟨notRefused, rest⟩ := takes.of_unless
  exact ⟨Decidable.of_not_not notRefused, rest⟩

/-- What is read only under a condition is a default where it is not. -/
theorem Takes.of_optional {coded : Bool} {default : α} {follow : α → Parse β}
    (takes : (if coded then read >>= follow else pure default >>= follow).Takes steps result) :
    ∃ value front back, steps = front ++ back ∧ (coded = true → read.Takes front value) ∧
      (coded = false → front = [] ∧ value = default) ∧ (follow value).Takes back result := by
  cases coded with
  | true =>
      obtain ⟨value, front, back, rfl, here, there⟩ := Takes.of_bind takes
      exact ⟨value, front, back, rfl, fun _ => here, nofun, there⟩
  | false => exact ⟨default, [], steps, rfl, nofun, fun _ => ⟨rfl, rfl⟩, takes⟩

/-! ## Bare bits -/

/-- Digits are those of the number that they make up. -/
theorem ofNat_foldl_append (start : Nat) (bits : List Bool) :
    Bits.ofNat bits.length (bits.foldl Bits.append start) = bits := by
  induction bits generalizing start with
  | nil => rfl
  | cons bit rest ih =>
      have low := ih (Bits.append start bit)
      have split := Bits.foldl_append_ofNat rest.length
        (rest.foldl Bits.append (Bits.append start bit)) (Bits.append start bit)
      rw [List.foldl_cons, List.length_cons, Bits.ofNat, low]
      rw [low] at split
      generalize rest.foldl Bits.append (Bits.append start bit) = number at split
      -- above its low digits stands the first digit, at the end of those in front
      have digit : (number.testBit rest.length).toNat = bit.toNat := by
        have high : number / 2 ^ rest.length = Bits.append start bit := by
          have parts := Nat.div_add_mod number (2 ^ rest.length)
          apply Nat.eq_of_mul_eq_mul_left (Nat.two_pow_pos rest.length)
          rw [Nat.mul_comm _ (Bits.append start bit)]
          omega
        rw [Nat.toNat_testBit, high, Bits.append]
        have := bit.toNat_lt
        omega
      have same : number.testBit rest.length = bit := by
        revert digit
        cases number.testBit rest.length <;> cases bit <;> simp
      rw [same]

theorem ofNat_toNat (bits : List Bool) : Bits.ofNat bits.length (Bits.toNat bits) = bits :=
  ofNat_foldl_append 0 bits

theorem toNat_lt (bits : List Bool) : Bits.toNat bits < 2 ^ bits.length := by
  have number := Bits.toNat_ofNat_mod bits.length (Bits.toNat bits)
  rw [ofNat_toNat] at number
  rw [number]
  exact Nat.mod_lt _ (Nat.two_pow_pos bits.length)

theorem takes_readField {width start number : Nat}
    (takes : (readField width start).Takes steps number) :
    ∃ bits : List Bool, bits.length = width ∧ number = bits.foldl Bits.append start ∧
      steps = bits.map .bit := by
  induction width generalizing start steps with
  | zero =>
      cases takes
      exact ⟨[], rfl, rfl, rfl⟩
  | succ width ih =>
      cases takes with
      | @bit bit _ _ _ tail =>
          obtain ⟨bits, rfl, number_eq, rfl⟩ := ih tail
          exact ⟨bit :: bits, rfl, number_eq, rfl⟩

/-- The digits that a number is read through are its own. -/
theorem takes_literal {width number : Nat} (takes : (literal width).Takes steps number) :
    number < 2 ^ width ∧ steps = (Bits.ofNat width number).map .bit := by
  obtain ⟨bits, rfl, rfl, rfl⟩ := takes_readField takes
  exact ⟨toNat_lt bits, congrArg (List.map Step.bit) (ofNat_toNat bits).symm⟩

theorem Takes.of_literal {width : Nat} {next : Nat → Parse β}
    (takes : (literal width >>= next).Takes steps result) :
    ∃ number rest, number < 2 ^ width ∧ steps = (Bits.ofNat width number).map .bit ++ rest ∧
      (next number).Takes rest result := by
  obtain ⟨number, front, rest, rfl, here, there⟩ := takes.of_bind
  obtain ⟨fits, rfl⟩ := takes_literal here
  exact ⟨number, rest, fits, rfl, there⟩

theorem Takes.of_save {plane : Plane} {memory : RestorationMemory} {next : Unit → Parse β}
    (takes : (save plane memory >>= next).Takes steps result) :
    ∃ rest, steps = .remember plane memory :: rest ∧ (next ()).Takes rest result := by
  cases takes with
  | @remember _ _ _ rest _ tail => exact ⟨rest, rfl, tail⟩

end Parse

/-! ## Plans -/

/-- A plan is accepted and consists of just these steps. -/
def Plan.Codes {α : Type} (plan : Plan α) (value : α) (steps : List Step) : Prop :=
  plan = ⟨steps, .ok value⟩

namespace Plan

variable {α β γ : Type} {plan : Plan α} {value : α} {result : β} {steps front back : List Step}

theorem Codes.bind {next : α → Plan β} (first : plan.Codes value front)
    (rest : (next value).Codes result back) : Codes (plan >>= next) result (front ++ back) := by
  subst first
  rw [Emit.bind_of_ok rfl, rest]
  rfl

/-- The same where the first is one step. -/
theorem Codes.after {next : Unit → Plan β} {step : Step} (rest : (next ()).Codes result steps) :
    Codes (Emit.one step >>= next) result (step :: steps) :=
  Codes.bind rfl rest

theorem Codes.check {checked : Except CodingError α} {next : α → Plan β}
    (passed : checked = .ok value) (rest : (next value).Codes result steps) :
    Codes ((liftM checked : Plan α) >>= next) result steps := by
  subst passed
  exact Codes.bind rfl rest

theorem Codes.unless {refused : Prop} [Decidable refused] {error : CodingError}
    {next : γ → Plan α} (accepted : ¬refused) (rest : plan.Codes value steps) :
    Codes (if refused then (throw error : Plan γ) >>= next else plan) value steps := by
  rw [if_neg accepted]
  exact rest

theorem Codes.given {accepted : Prop} [Decidable accepted] {error : CodingError}
    {next : γ → Plan α} (holds : accepted) (rest : plan.Codes value steps) :
    Codes (if ¬accepted then (throw error : Plan γ) >>= next else plan) value steps :=
  .unless (not_not_intro holds) rest

/-- What is written only under a condition. -/
theorem Codes.optional {coded : Bool} {plan : Plan Unit} {next : Unit → Plan β}
    (first : coded = true → plan.Codes () front) (nothing : coded = false → front = [])
    (rest : (next ()).Codes result back) :
    Codes (if coded then plan >>= next else next ()) result (front ++ back) := by
  cases coded with
  | true => exact (first rfl).bind rest
  | false =>
      rw [nothing rfl]
      exact rest

/-- The same of what is written last. -/
theorem Codes.optional_ending {coded : Bool} {plan : Plan Unit}
    (first : coded = true → plan.Codes () steps) (nothing : coded = false → steps = []) :
    Codes (if coded then plan else pure ()) () steps := by
  cases coded with
  | true => exact first rfl
  | false =>
      rw [nothing rfl]
      rfl

theorem codes_pure (value : α) : Codes (pure value) value [] := rfl

theorem codes_symbol (slot : Slot) (value : Nat) :
    Codes (symbol slot value) () [.symbol slot value] := rfl

theorem codes_flag (slot : Slot) (value : Bool) :
    Codes (flag slot value) () [.symbol slot value.toNat] := rfl

theorem codes_literal (width value : Nat) :
    Codes (literal width value) () ((Bits.ofNat width value).map .bit) := rfl

end Plan

/-- What a reader reads is written with the steps that it was read through. -/
def Recodes {α : Type} (read : Parse α) (write : α → Plan Unit) : Prop :=
  ∀ ⦃steps : List Step⦄ ⦃value : α⦄, read.Takes steps value → (write value).Codes () steps

theorem recodes_flag {slot : Slot} (two : slot.table.symbols = 2) :
    Recodes (Parse.readFlag slot) (Plan.flag slot) := by
  intro steps flag takes
  rw [Parse.takes_readFlag two takes]
  exact Plan.codes_flag slot flag

end TileCoder
