import TileCoder.Element.Restoration

/-!
# Readers that follow plans

`Parse.Follows read steps value` says that a reader asks for just these steps, one after another,
and that they take it to the value. `Restores plan read value` says so of the steps of a plan, once
the plan is accepted. Both are composed along the two programs: a reader that goes on where a plan
goes on restores what comes next (`Restores.bind`), and a check that a plan makes is a fact for all
that follows it (`Restores.check`).
-/

namespace TileCoder

open scoped Plain

/-- Symbols whose joint mass makes a flag: no symbol twice, and none without mass in front of it. -/
structure Table.Gathers (table : Table) (symbols : List Nat) : Prop where
  distinct : symbols.Nodup
  inside : ∀ symbol ∈ symbols, 0 < symbol ∧ symbol < table.symbols

/-- All numbers of a filter can be coded from those that are remembered. -/
def RestorationMemory.InRange (memory : RestorationMemory) : Prop :=
  ∀ field : Field, field.range.Contains (memory.get field)

/-- A reader asks for these steps, which a tile can code, and comes to a value. -/
inductive Parse.Follows {α : Type} : Parse α → List Step → α → Prop where
  | done (value : α) : Follows (.done value) [] value
  | symbol {slot : Slot} {value : Nat} {next : Nat → Parse α} {steps : List Step} {result : α}
      (inside : value < slot.table.symbols) (tail : Follows (next value) steps result) :
      Follows (.symbol slot next) (.symbol slot value :: steps) result
  | gathered {slot : Slot} {symbols : List Nat} {flag : Bool} {next : Bool → Parse α}
      {steps : List Step} {result : α} (gathers : slot.table.Gathers symbols)
      (tail : Follows (next flag) steps result) :
      Follows (.gathered slot symbols next) (.gathered slot symbols flag :: steps) result
  | bit {bit : Bool} {next : Bool → Parse α} {steps : List Step} {result : α}
      (tail : Follows (next bit) steps result) : Follows (.bit next) (.bit bit :: steps) result
  | remember {plane : Plane} {memory : RestorationMemory} {next : Parse α} {steps : List Step}
      {result : α} (inRange : memory.InRange) (tail : Follows next steps result) :
      Follows (.remember plane memory next) (.remember plane memory :: steps) result

namespace Parse

variable {α β : Type}

theorem Follows.bind {read : Parse α} {next : α → Parse β} {steps rest : List Step} {value : α}
    {result : β} (first : read.Follows steps value) (second : (next value).Follows rest result) :
    (read >>= next).Follows (steps ++ rest) result := by
  induction first with
  | done => exact second
  | symbol inside _ ih => exact .symbol inside (ih second)
  | gathered gathers _ ih => exact .gathered gathers (ih second)
  | bit _ ih => exact .bit (ih second)
  | remember inRange _ ih => exact .remember inRange (ih second)

/-- Nothing more is asked for where the value is only changed. -/
theorem Follows.map_done {read : Parse α} {steps : List Step} {value : α}
    (first : read.Follows steps value) (change : α → β) :
    (read >>= fun value => pure (change value)).Follows steps (change value) := by
  rw [← List.append_nil steps]
  exact first.bind (.done (change value))

@[simp] theorem liftM_ok_bind (value : α) (next : α → Parse β) :
    (liftM (.ok value : Except CodingError α) : Parse α) >>= next = next value := rfl

theorem bind_bind {γ : Type} (first : Parse α) (next : α → Parse β) (last : β → Parse γ) :
    first >>= next >>= last = first >>= fun value => next value >>= last :=
  Parse.bind_assoc first next last

theorem follows_readSymbol {slot : Slot} {value : Nat} (inside : value < slot.table.symbols) :
    (readSymbol slot).Follows [.symbol slot value] value :=
  .symbol inside (.done value)

theorem follows_readFlag (slot : Slot) (flag : Bool) :
    (readFlag slot).Follows [.symbol slot flag.toNat] flag := by
  have inside : flag.toNat < slot.table.symbols :=
    Nat.lt_of_lt_of_le flag.toNat_lt slot.table.two_le_symbols
  have same : decide (flag.toNat ≠ 0) = flag := by cases flag <;> rfl
  refine .symbol inside ?_
  rw [same]
  exact .done flag

theorem follows_readField (start : Nat) (bits : List Bool) :
    (readField bits.length start).Follows (bits.map .bit) (bits.foldl Bits.append start) := by
  induction bits generalizing start with
  | nil => exact .done start
  | cons bit rest ih => exact .bit (ih _)

/-- Digits are read back as the number that they stand for. -/
theorem follows_literal_mod (width value : Nat) :
    (literal width).Follows ((Bits.ofNat width value).map .bit) (value % 2 ^ width) := by
  have digits := follows_readField 0 (Bits.ofNat width value)
  rw [Bits.length_ofNat] at digits
  rw [← Bits.toNat_ofNat_mod]
  exact digits

/-- A number that fits its width is read back from its digits. -/
theorem follows_literal {width value : Nat} (fits : value < 2 ^ width) :
    (literal width).Follows ((Bits.ofNat width value).map .bit) value := by
  have digits := follows_literal_mod width value
  rwa [Nat.mod_eq_of_lt fits] at digits

end Parse

/-- A reader reads a value back from the steps of a plan, if the plan is accepted. -/
def Restores {α β : Type} (plan : Plan β) (read : Parse α) (value : α) : Prop :=
  ∀ b, plan.result = .ok b → read.Follows plan.items value

section Restores

variable {α β γ δ : Type}

theorem Restores.bind {plan : Plan β} {read : Parse α} {value : α} {next : β → Plan γ}
    {follow : α → Parse δ} {result : δ} (first : Restores plan read value)
    (second : ∀ b, plan.result = .ok b → Restores (next b) (follow value) result) :
    Restores (plan >>= next) (read >>= follow) result := by
  intro c accepted
  cases outcome : plan.result with
  | error e =>
      rw [Emit.bind_of_error outcome] at accepted
      cases accepted
  | ok b =>
      rw [Emit.bind_of_ok outcome] at accepted ⊢
      exact (first b outcome).bind (second b outcome c accepted)

/-- A plan that begins with a check is accepted if the check passes and the rest is. -/
theorem Plan.accepted_check {checked : Except CodingError β} {next : β → Plan γ} {c : γ}
    (accepted : ((liftM checked : Plan β) >>= next).result = .ok c) :
    ∃ b, checked = .ok b ∧ (next b).result = .ok c ∧
      ((liftM checked : Plan β) >>= next).items = (next b).items := by
  cases outcome : (liftM checked : Plan β).result with
  | error e =>
      rw [Emit.bind_of_error outcome] at accepted
      cases accepted
  | ok b =>
      rw [Emit.bind_of_ok outcome] at accepted ⊢
      exact ⟨b, outcome, accepted, rfl⟩

/-- What follows a check may use what was checked. -/
theorem Restores.check {checked : Except CodingError β} {next : β → Plan γ} {read : Parse α}
    {value : α} (rest : ∀ b, checked = .ok b → Restores (next b) read value) :
    Restores ((liftM checked : Plan β) >>= next) read value := by
  intro c accepted
  obtain ⟨b, passed, next_accepted, items⟩ := Plan.accepted_check accepted
  rw [items]
  exact rest b passed c next_accepted

/-- A refused value restores nothing, so that the rest of the plan may assume it is not refused. -/
theorem Restores.unless {refused : Prop} [Decidable refused] {error : CodingError}
    {next : β → Plan γ} {plan : Plan γ} {read : Parse α} {value : α}
    (rest : ¬refused → Restores plan read value) :
    Restores (if refused then (throw error : Plan β) >>= next else plan) read value := by
  split
  · intro b accepted
    cases accepted
  · exact rest ‹_›

theorem Restores.given {accepted : Prop} [Decidable accepted] {error : CodingError}
    {next : β → Plan γ} {plan : Plan γ} {read : Parse α} {value : α}
    (rest : accepted → Restores plan read value) :
    Restores (if ¬accepted then (throw error : Plan β) >>= next else plan) read value :=
  Restores.unless fun notRefused => rest (Decidable.of_not_not notRefused)

theorem restores_throw (error : CodingError) (read : Parse α) (value : α) :
    Restores (throw error : Plan β) read value := by
  intro b accepted
  cases accepted

theorem restores_pure (b : β) (value : α) : Restores (pure b) (pure value) value :=
  fun _ _ => .done value

/-- Nothing is left to write where the reader has its value. -/
theorem Restores.ending {plan : Plan β} {read : Parse α} {value : α} {follow : α → Parse δ}
    {result : δ} (first : Restores plan read value) (last : follow value = pure result) :
    Restores plan (read >>= follow) result := by
  intro b accepted
  have follows : (follow value).Follows [] result := by
    rw [last]
    exact .done result
  rw [← List.append_nil plan.items]
  exact (first b accepted).bind follows

/-- What is written only under a condition has a default where it is not. -/
theorem Restores.optional {coded : Bool} {plan : Plan Unit} {read : Parse α} {value default : α}
    {next : Unit → Plan γ} {follow : α → Parse δ} {result : δ}
    (first : coded = true → Restores plan read value)
    (rest : Restores (next ()) (follow (if coded then value else default)) result) :
    Restores (if coded then plan >>= next else next ())
      (if coded then read >>= follow else pure default >>= follow) result := by
  cases coded with
  | true => exact (first rfl).bind fun _ _ => rest
  | false => exact rest

/-- The same of what is written last. -/
theorem Restores.optional_ending {coded : Bool} {plan : Plan Unit} {read : Parse α}
    {value default : α} {follow : α → Parse δ} {result : δ}
    (first : coded = true → Restores plan read value)
    (last : follow (if coded then value else default) = pure result) :
    Restores (if coded then plan else pure ())
      (if coded then read >>= follow else pure default >>= follow) result := by
  cases coded with
  | true => exact (first rfl).ending last
  | false =>
      rw [if_neg Bool.false_ne_true, if_neg Bool.false_ne_true, Parse.pure_bind]
      exact last ▸ restores_pure () result

theorem restores_symbol {slot : Slot} {value : Nat} (inside : value < slot.table.symbols) :
    Restores (Plan.symbol slot value) (Parse.readSymbol slot) value :=
  fun _ _ => Parse.follows_readSymbol inside

theorem restores_flag (slot : Slot) (flag : Bool) :
    Restores (Plan.flag slot flag) (Parse.readFlag slot) flag :=
  fun _ _ => Parse.follows_readFlag slot flag

theorem restores_bit (bit : Bool) :
    Restores (Emit.one (.bit bit)) (Code.bit : Parse Bool) bit :=
  fun _ _ => .bit (.done bit)

theorem restores_literal {width value : Nat} (fits : value < 2 ^ width) :
    Restores (Plan.literal width value) (Parse.literal width) value :=
  fun _ _ => Parse.follows_literal fits

/-- Reads the symbol of a value, and the value from the symbol. -/
theorem restores_symbol_ofOption {slot : Slot} {symbol : Nat} (inside : symbol < slot.table.symbols)
    {value : α} {ofSymbol : Nat → Option α} (found : ofSymbol symbol = some value) :
    Restores (Plan.symbol slot symbol)
      (Parse.readSymbol slot >>= fun symbol => Parse.ofOption (ofSymbol symbol)) value := by
  apply (restores_symbol inside).ending
  rw [found]
  rfl

end Restores

end TileCoder
