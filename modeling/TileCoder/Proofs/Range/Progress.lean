import TileCoder.Proofs.Range.Safety

/-!
# Reading ends

A finite payload answers finitely many calls, whatever it says and whatever is asked. A call that
succeeds uses up bits or, if it does not, part of the range (`Advances`), and neither is endless: what is
left of both is a reader's `budget`, which every success lowers (`Served.budget_lt`). A reader
that has run past the end of its payload stays there, unless its caller goes on until the position
starts over. That takes as many bits as there are words, and no call uses up more than a few
(`Moves`): up to the middle of the words the position is the number of bits (`Underway.tell_eq`).

The calls may depend on the answers: a `Caller` chooses each one when it knows all answers to the
calls before it.
-/

namespace TileCoder.Range

/-- Whatever symbol is read, at least the least part of another one is left out of the range. -/
theorem part_add_le {cdf : Cdf} (roomy : cdf.Roomy) {range symbol : Nat} (scaled : InScale range)
    (inside : symbol < cdf.arity) :
    upperEnd cdf range symbol - lowerEnd cdf range symbol + minPart ≤ range := by
  have first := lowerEnd_zero_add_le roomy scaled
  cases symbol with
  | zero =>
      -- the symbols behind the first one have at least a part together
      have behind : minPart ≤ lowerEnd cdf range 0 := by
        have := roomy.1.three_le
        unfold lowerEnd minPart
        omega
      rw [upperEnd]
      omega
  | succ symbol =>
      have := lowerEnd_anti roomy.1 range (Nat.zero_le symbol) (by omega)
      rw [upperEnd]
      omega

namespace Reader

/-- What a call is answered; a flag is answered by 0 or 1. -/
def answer (reader : Reader) : Request → Except CodingError Nat
  | .flag mass => (reader.flag mass).1.map Bool.toNat
  | .symbol cdf => (reader.symbol cdf).1

/-- What a call may ask for: a flag of less than the whole mass, or a symbol of a row that can be coded
with. -/
def Request.Usable : Request → Prop
  | flag mass => mass < Cdf.top
  | symbol cdf => cdf.Usable

/-- A reader gets on in bits, of which it uses up a few at most, or by a part of its range. -/
structure Moves (reader next : Reader) : Prop where
  on : reader.bits < next.bits ∨ next.bits = reader.bits ∧ next.range + minPart ≤ reader.range
  few : next.bits ≤ reader.bits + 13

/-- A reader with a position. -/
structure Underway (reader : Reader) : Prop where
  sound : reader.Sound
  bits_pos : 0 < reader.bits

theorem Underway.tell_eq {reader : Reader} (underway : reader.Underway)
    (fits : reader.bits < wordSize) : (reader.tell : Int) = reader.bits :=
  word_of_fits underway.bits_pos.le fits

section Step

variable {reader : Reader} {request : Request}

/-- A flag is answered as a symbol of its row is. -/
theorem Underway.answer_flag (underway : reader.Underway) {mass : Nat} (below : mass < Cdf.top) :
    reader.answer (.flag mass) =
      (reader.answer (.symbol (flagCdf mass))).map fun symbol => (decide (symbol ≠ 0)).toNat := by
  rw [answer, answer, underway.sound.flag_eq below]
  cases (reader.symbol (flagCdf mass)).1 <;> rfl

theorem Underway.serve_flag (underway : reader.Underway) {mass : Nat} (below : mass < Cdf.top) :
    reader.serve (.flag mass) = reader.serve (.symbol (flagCdf mass)) := by
  rw [serve, serve, underway.sound.flag_eq below]

/-- A usable call moves the reader on, and succeeds unless that is past the end. -/
structure Served (reader : Reader) (request : Request) : Prop where
  underway : (reader.serve request).Underway
  size_eq : (reader.serve request).size = reader.size
  moves : reader.Moves (reader.serve request)
  fails : (reader.serve request).exhausted = true →
    reader.answer request = .error .truncatedStream
  succeeds : (reader.serve request).exhausted = false → ∃ value, reader.answer request = .ok value

theorem Underway.served_symbol (underway : reader.Underway) {cdf : Cdf} (roomy : cdf.Roomy) :
    reader.Served (.symbol cdf) := by
  obtain ⟨sound, positive⟩ := underway
  obtain ⟨symbol, inside, reached, below⟩ := exists_between roomy.1 sound.point_lt
  have read := symbol_eq sound.scaled roomy inside reached below
  obtain ⟨next_sound, range, bits, size, -⟩ :=
    enter_spec (sound.entry_between roomy inside reached below)
  have narrower := part_add_le roomy sound.scaled inside
  have ends := lowerEnd_add_le_upperEnd roomy sound.scaled inside
  have few := headroom_le_of_minPart
    (show minPart ≤ upperEnd cdf reader.range symbol - lowerEnd cdf reader.range symbol by omega)
  generalize upperEnd cdf reader.range symbol - lowerEnd cdf reader.range symbol = part
    at read range bits size next_sound narrower few
  generalize reader.enter _ part = next at read range bits size next_sound
  have served : reader.serve (.symbol cdf) = next := by
    show (reader.symbol cdf).2 = next
    rw [read, deliver_snd]
  have moves : reader.Moves next := by
    refine ⟨?_, by omega⟩
    rcases Nat.eq_zero_or_pos (headroom part) with none | some
    · rw [none, Nat.pow_zero, Nat.mul_one] at range
      right
      constructor <;> omega
    · left
      omega
  have answered : reader.answer (.symbol cdf) = (next.deliver symbol).1 := congrArg Prod.fst read
  refine ⟨?_, ?_, ?_, ?_, ?_⟩
  all_goals rw [served]
  · exact ⟨next_sound, by omega⟩
  · exact size
  · exact moves
  · intro past
    rw [answered, deliver, if_pos past]
  · intro within
    rw [answered, deliver, if_neg (Bool.eq_false_iff.mp within)]
    exact ⟨symbol, rfl⟩

theorem Underway.served (underway : reader.Underway) (usable : request.Usable) :
    reader.Served request := by
  cases request with
  | symbol cdf => exact underway.served_symbol usable.roomy
  | flag mass =>
      have served := underway.served_symbol (usable_flagCdf usable).roomy
      have same := underway.serve_flag usable
      have answered := underway.answer_flag usable
      refine ⟨?_, ?_, ?_, ?_, ?_⟩
      all_goals rw [same]
      · exact served.underway
      · exact served.size_eq
      · exact served.moves
      · intro past
        rw [answered, served.fails past]
        rfl
      · intro within
        obtain ⟨symbol, found⟩ := served.succeeds within
        rw [answered, found]
        exact ⟨_, rfl⟩

end Step

/-! ## What is left -/

/-- How often the range of a reader can shrink before a bit is used up. -/
def rangeSteps : Nat := 8192

/-- How many calls a reader may still answer. -/
def budget (reader : Reader) : Nat :=
  if 8 * reader.size < reader.bits then 0
  else rangeSteps * (8 * reader.size - reader.bits).toNat + (reader.range - fullRange) / minPart

section Budget

variable {reader : Reader} {request : Request} {value : Nat}

theorem Underway.exhausted_iff (underway : reader.Underway) (fits : reader.bits < wordSize) :
    reader.exhausted = true ↔ 8 * reader.size < reader.bits := by
  have tell := underway.tell_eq fits
  rw [exhausted, decide_eq_true_eq]
  omega

/-- From the lower half of the words no call leads out of the words. -/
theorem Served.fits (served : reader.Served request) (low : reader.bits < 2 ^ 31) :
    (reader.serve request).bits < wordSize := by
  have few := served.moves.few
  unfold wordSize
  omega

/-- A reader does not come back from behind its payload. -/
theorem Served.exhausted (served : reader.Served request) (underway : reader.Underway)
    (low : reader.bits < 2 ^ 31) (past : reader.exhausted = true) :
    (reader.serve request).exhausted = true := by
  have further := served.moves.on
  have size := served.size_eq
  rw [underway.exhausted_iff (by unfold wordSize; omega)] at past
  rw [served.underway.exhausted_iff (served.fits low)]
  omega

/-- A success does not lead past the end of the payload. -/
theorem Served.bits_le_of_ok (served : reader.Served request) (low : reader.bits < 2 ^ 31)
    (read : reader.answer request = .ok value) :
    (reader.serve request).bits ≤ 8 * reader.size := by
  by_contra beyond
  have past : (reader.serve request).exhausted = true := by
    rw [served.underway.exhausted_iff (served.fits low), served.size_eq]
    omega
  rw [served.fails past] at read
  cases read

/-- Every success takes one off the budget. -/
theorem Served.budget_lt (served : reader.Served request) (sound : reader.Sound)
    (low : reader.bits < 2 ^ 31) (read : reader.answer request = .ok value) :
    (reader.serve request).budget < reader.budget := by
  have within := served.bits_le_of_ok low read
  have size := served.size_eq
  have scaled := sound.scaled
  have scaled_next := served.underway.sound.scaled
  have on := served.moves.on
  rw [budget, budget, if_neg (by omega), if_neg (by omega)]
  unfold minPart at on
  unfold InScale at scaled scaled_next
  unfold rangeSteps fullRange minPart
  omega

theorem Served.budget_le (served : reader.Served request) (sound : reader.Sound)
    (low : reader.bits < 2 ^ 31) : (reader.serve request).budget ≤ reader.budget := by
  cases past : (reader.serve request).exhausted with
  | true =>
      rw [budget, if_pos ((served.underway.exhausted_iff (served.fits low)).mp past)]
      exact Nat.zero_le _
  | false =>
      obtain ⟨value, read⟩ := served.succeeds past
      exact (served.budget_lt sound low read).le

end Budget

/-! ## Dialogues -/

/-- Chooses what is asked for next by the answers so far, the latest in front. -/
abbrev Caller := List (Except CodingError Nat) → Request

/-- A reader and what it has answered so far. -/
structure Dialogue where
  answers : List (Except CodingError Nat)
  reader : Reader

namespace Dialogue

def start (payload : List UInt8) : Dialogue := ⟨[], ofBytes payload⟩

variable (caller : Caller) (dialogue : Dialogue)

def request : Request := caller dialogue.answers

/-- The answer to the next call. -/
def reply : Except CodingError Nat := dialogue.reader.answer (dialogue.request caller)

/-- Makes the next call. -/
def next : Dialogue :=
  ⟨dialogue.reply caller :: dialogue.answers, dialogue.reader.serve (dialogue.request caller)⟩

def afterCalls (payload : List UInt8) : (calls : Nat) → Dialogue
  | 0 => start payload
  | calls + 1 => (afterCalls payload calls).next caller

def successes : Nat := dialogue.answers.countP Except.isOk

end Dialogue

/-- Every call so far that has failed has left the position in the lower half of the words. -/
def Dialogue.Low (caller : Caller) (payload : List UInt8) (calls : Nat) : Prop :=
  ∀ earlier error, earlier < calls → (afterCalls caller payload earlier).reply caller = .error error →
    (afterCalls caller payload (earlier + 1)).reader.tell < 2 ^ 31

theorem Dialogue.Low.mono {caller : Caller} {payload : List UInt8} {calls later : Nat}
    (low : Low caller payload later) (order : calls ≤ later) : Low caller payload calls :=
  fun earlier error before => low earlier error (Nat.lt_of_lt_of_le before order)

/-- What a dialogue of any length keeps. -/
structure Dialogue.Bounded (dialogue : Dialogue) (payload : List UInt8) : Prop where
  underway : dialogue.reader.Underway
  size_eq : dialogue.reader.size = payload.length
  low : dialogue.reader.bits < 2 ^ 31
  few : dialogue.successes + dialogue.reader.budget ≤ 65536 * payload.length

section Dialogues

variable {caller : Caller} {dialogue : Dialogue} {payload : List UInt8}

theorem Dialogue.Bounded.next (bounded : dialogue.Bounded payload)
    (short : payload.length < 2 ^ 27) (usable : (dialogue.request caller).Usable)
    (low : ∀ error, dialogue.reply caller = .error error →
      (dialogue.next caller).reader.tell < 2 ^ 31) :
    (dialogue.next caller).Bounded payload := by
  have served := bounded.underway.served usable
  have size := bounded.size_eq
  have few := bounded.few
  have count : (dialogue.next caller).successes =
      dialogue.successes + if (dialogue.reply caller).isOk then 1 else 0 :=
    List.countP_cons
  refine ⟨served.underway, served.size_eq.trans size, ?_, ?_⟩
  · show (dialogue.reader.serve (dialogue.request caller)).bits < 2 ^ 31
    cases answered : dialogue.reply caller with
    | ok value =>
        have within := served.bits_le_of_ok bounded.low answered
        omega
    | error error =>
        have tell := served.underway.tell_eq (served.fits bounded.low)
        have below : (dialogue.reader.serve (dialogue.request caller)).tell < 2 ^ 31 :=
          low error answered
        omega
  · rw [count]
    show _ + (dialogue.reader.serve (dialogue.request caller)).budget ≤ _
    cases answered : dialogue.reply caller with
    | ok value =>
        have := served.budget_lt bounded.underway.sound bounded.low answered
        rw [show (Except.ok value : Except CodingError Nat).isOk = true from rfl, if_pos rfl]
        omega
    | error error =>
        have := served.budget_le bounded.underway.sound bounded.low
        rw [show (Except.error error : Except CodingError Nat).isOk = false from rfl,
          if_neg Bool.false_ne_true]
        omega

end Dialogues

end Reader

end TileCoder.Range
