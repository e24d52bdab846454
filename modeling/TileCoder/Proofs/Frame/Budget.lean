import TileCoder.Proofs.Frame.InStep
import TileCoder.Proofs.Range.Outputs
import TileCoder.Proofs.Range.Overlong
import TileCoder.Proofs.Tile.Tokens

/-!
# The budget of a tile

A tile that has a budget compares it with the bytes that its position takes, each time a primitive has
been coded, and with the bytes of its payload at the end. `budget_exact` says that both are the same
number as long as the bits are a word: a payload is as long as the position in front of its end says, and
it is within the budget just when none of the calls was told otherwise. As the bits never become fewer, a
budget that was exceeded once stays exceeded. But a position starts over after as many bits as there
are words, and no position takes more than `endless` bytes (`not_overflows_of_endless`).

A budget only has a say in what is answered. A tile with a budget codes what one without it does
(`putAll_withBudget`), and goes on coding when the budget is spent.
-/

namespace TileCoder

open TileCoder.Range

/-! ## Checks -/

theorem bind_ne_error {ε α β : Type} {first : Except ε α} {next : α → Except ε β} {error : ε}
    (first_ne : first ≠ .error error) (next_ne : ∀ a, next a ≠ .error error) :
    (first >>= next) ≠ .error error := by
  cases first with
  | error other => simpa [bind, Except.bind] using first_ne
  | ok a => exact next_ne a

theorem checkSymbol_ne_overBudget (value arity bytes : Nat) :
    checkSymbol value arity ≠ .error (.overBudget bytes) := by
  unfold checkSymbol
  split <;> simp

theorem Number.check_ne_overBudget (number : Number) (value bytes : Nat) :
    number.check value ≠ .error (.overBudget bytes) := by
  cases number with
  | literal width =>
      rw [Number.check, Number.checkLiteral]
      split <;> simp
  | gamma | uniform | subexp => simp [Number.check]
  | subexpBelow => exact checkSymbol_ne_overBudget _ _ _
  | subexpAround =>
      exact bind_ne_error (checkSymbol_ne_overBudget _ _ _) fun _ => checkSymbol_ne_overBudget _ _ _
  | bilevel size span =>
      refine bind_ne_error (checkSymbol_ne_overBudget _ _ _) fun _ =>
        bind_ne_error (checkSymbol_ne_overBudget _ _ _) fun _ => ?_
      unfold checkWindow
      split <;> simp

/-- No check of arguments knows of a budget. -/
theorem Primitive.check_ne_overBudget {α : Type} (primitive : Primitive α) (value : α)
    (bytes : Nat) : primitive.check value ≠ .error (.overBudget bytes) := by
  cases primitive with
  | flag mass =>
      rw [check, checkMass]
      split <;> simp
  | symbol cdf =>
      refine bind_ne_error ?_ fun _ => checkSymbol_ne_overBudget _ _ _
      unfold Cdf.checkStrict
      split <;> simp
  | adapting cdf =>
      refine bind_ne_error ?_ fun _ => checkSymbol_ne_overBudget _ _ _
      unfold Cdf.checkCodable
      split <;> simp
  | number code => exact code.check_ne_overBudget value bytes
  | signed => simp [check]

/-! ## Tiles -/

/-- A tile that has a budget ends as one without, if its payload is within the budget. -/
theorem FrameTile.finish_of_budget {tile : FrameTile Payload} {limit : Nat}
    (limited : tile.budget = some limit) :
    tile.finish =
      if tile.writer.coder.finish.length ≤ limit then
        .ok (tile.writer.coder.finish, ⟨tile.id, tile.writer.tables⟩)
      else .error (.overBudget limit) := by
  rw [finish, checkBudget, limited]
  dsimp only
  split
  next spent =>
    rw [if_neg (Nat.not_le_of_lt spent)]
    rfl
  next kept =>
    rw [if_pos (Nat.le_of_not_lt kept)]
    rfl

/-! ## Calls -/

/-- A primitive that a tile is told to code. -/
inductive PrimitiveCall where
  | given {α : Type} (primitive : Primitive α) (value : α)
  /-- A symbol of one of the caller's own rows, which adapts to it. -/
  | owned (row value : Nat)

/-- The same tile, with another budget or none. -/
def Session.withBudget {σ : Type} (session : Session (FrameTile σ)) (budget : Option Nat) :
    Session (FrameTile σ) :=
  { session with tile := { session.tile with budget } }

/-- The bits of a tile's payload, however many they are. -/
def Session.bits (session : Session (FrameTile Payload)) : Int := session.tile.writer.coder.bits

/-- The bytes that these bits take. -/
def Session.bytes (session : Session (FrameTile Payload)) : Nat := ((session.bits + 7) / 8).toNat

/-- The position takes as many if the bits are a word. -/
theorem Session.size_eq (session : Session (FrameTile Payload)) (positive : 0 ≤ session.bits)
    (fits : session.bits < wordSize) : session.tile.size = session.bytes := by
  have tell : (session.tile.writer.coder.tell : Int) = session.bits := word_of_fits positive fits
  unfold FrameTile.size Session.bytes
  omega

namespace PrimitiveCall

def entry : PrimitiveCall → Entry
  | given primitive value => ⟨.primitive primitive, value⟩
  | owned row value => ⟨.owned row, value⟩

/-- What is found when the arguments are checked. -/
def check (rows : List Cdf) : PrimitiveCall → Except CodingError Unit
  | given primitive value => primitive.check value
  | owned row value => (Primitive.adapting (rows.getD row [])).check value

/-- Codes the primitive, once it is checked. -/
def put (session : Session (FrameTile Payload)) (call : PrimitiveCall) :
    Except CodingError Unit × Session (FrameTile Payload) :=
  call.entry.put session

/-- The tile once the primitive is coded. -/
def after (session : Session (FrameTile Payload)) (call : PrimitiveCall) :
    Session (FrameTile Payload) :=
  session.goOn (call.entry.write session.writer)

/-- Makes the calls one after another, whatever is answered. -/
def putAll (session : Session (FrameTile Payload)) (calls : List PrimitiveCall) :
    Session (FrameTile Payload) :=
  calls.foldl (fun session call => (call.put session).2) session

/-- Some call is answered that the payload has outgrown its budget. -/
def Overflows : List PrimitiveCall → Session (FrameTile Payload) → Prop
  | [], _ => False
  | call :: rest, session =>
      (∃ bytes, (call.put session).1 = .error (.overBudget bytes)) ∨
        Overflows rest (call.put session).2

/-! ## One call -/

section Put

variable {session : Session (FrameTile Payload)} {call : PrimitiveCall} {limit : Nat}

/-- A row that is put back where it came from. -/
theorem set_getD_self (rows : List Cdf) (row : Nat) : rows.set row (rows.getD row []) = rows := by
  by_cases inside : row < rows.length
  · rw [List.getD_eq_getElem _ _ inside]
    exact List.set_getElem_self inside
  · exact List.set_eq_of_length_le (by omega)

theorem put_of_refused {error : CodingError} (refused : call.check session.rows = .error error) :
    call.put session = (.error error, session) := by
  cases call with
  | given primitive value =>
      have refused : primitive.check value = .error error := refused
      rw [put, entry, Entry.put, Piece.put, FrameTile.put, refused]
  | owned row value =>
      have refused : (Primitive.adapting (session.rows.getD row [])).check value = .error error :=
        refused
      rw [put, entry, Entry.put, Piece.put, FrameTile.putAdapting, refused]
      dsimp only
      rw [set_getD_self]

/-- A primitive that passes its check is coded, and then the budget is looked at. -/
theorem put_of_check (passed : call.check session.rows = .ok ()) :
    call.put session =
      ((call.after session).tile.checkBudget (call.after session).tile.size,
        call.after session) := by
  cases call with
  | given primitive value =>
      have passed : primitive.check value = .ok () := passed
      rw [put, entry, Entry.put, Piece.put, FrameTile.put, passed]
      rfl
  | owned row value =>
      have passed : (Primitive.adapting (session.rows.getD row [])).check value = .ok () := passed
      rw [put, entry, Entry.put, Piece.put, FrameTile.putAdapting, passed]
      rfl

theorem put_snd_of_check (passed : call.check session.rows = .ok ()) :
    (call.put session).2 = call.after session := by
  rw [put_of_check passed]

theorem check_ne_overBudget (rows : List Cdf) (call : PrimitiveCall) (bytes : Nat) :
    call.check rows ≠ .error (.overBudget bytes) := by
  cases call with
  | given primitive value => exact primitive.check_ne_overBudget value bytes
  | owned row value => exact (Primitive.adapting (rows.getD row [])).check_ne_overBudget value bytes

/-- A call is told of an overflow just if it is coded and takes the tile beyond its budget. -/
theorem overflows_here_iff (limited : session.tile.budget = some limit) :
    (∃ bytes, (call.put session).1 = .error (.overBudget bytes)) ↔
      call.check session.rows = .ok () ∧ limit < (call.after session).tile.size := by
  have budget : (call.after session).tile.budget = some limit := limited
  cases checked : call.check session.rows with
  | error error =>
      rw [put_of_refused checked]
      refine iff_of_false ?_ (by simp)
      rintro ⟨bytes, refused⟩
      cases refused
      exact check_ne_overBudget _ _ _ checked
  | ok =>
      rw [put_of_check checked, FrameTile.checkBudget, budget]
      dsimp only
      split
      next spent => exact iff_of_true ⟨limit, rfl⟩ ⟨rfl, spent⟩
      next kept => exact iff_of_false (by simp) (fun spent => kept spent.2)

/-- A budget has no say in what is coded. -/
theorem put_withBudget (session : Session (FrameTile Payload)) (budget : Option Nat)
    (call : PrimitiveCall) :
    (call.put (session.withBudget budget)).2 = (call.put session).2.withBudget budget := by
  have rows : (session.withBudget budget).rows = session.rows := rfl
  cases checked : call.check session.rows with
  | error error => rw [put_of_refused checked, put_of_refused (rows ▸ checked)]
  | ok =>
      rw [put_of_check checked, put_of_check (rows ▸ checked)]
      rfl

/-- What calls do to a tile: they leave its budget, and take back nothing. -/
structure Grown (earlier later : Session (FrameTile Payload)) : Prop where
  budget_eq : later.tile.budget = earlier.tile.budget
  bits_le : earlier.bits ≤ later.bits
  count_ge : -9 ≤ earlier.tile.writer.coder.count → -9 ≤ later.tile.writer.coder.count

theorem grown_self (session : Session (FrameTile Payload)) : Grown session session :=
  ⟨rfl, Int.le_refl _, id⟩

theorem Grown.trans {earlier between later : Session (FrameTile Payload)}
    (first : Grown earlier between) (second : Grown between later) : Grown earlier later where
  budget_eq := second.budget_eq.trans first.budget_eq
  bits_le := first.bits_le.trans second.bits_le
  count_ge := second.count_ge ∘ first.count_ge

theorem grown_after (session : Session (FrameTile Payload)) (call : PrimitiveCall) :
    Grown session (call.after session) := by
  have coder : (call.after session).tile.writer.coder =
      (call.entry.tokens session.writer).foldl Writer.put session.tile.writer.coder :=
    Entry.coder_write session.writer call.entry
  refine ⟨rfl, ?_, ?_⟩
  · unfold Session.bits
    rw [coder]
    exact Writer.bits_le_foldl_put _ _
  · intro pending
    rw [coder]
    exact Writer.count_foldl_put pending _

theorem grown_put (session : Session (FrameTile Payload)) (call : PrimitiveCall) :
    Grown session (call.put session).2 := by
  cases checked : call.check session.rows with
  | error error =>
      rw [put_of_refused checked]
      exact grown_self session
  | ok =>
      rw [put_of_check checked]
      exact grown_after session call

/-- Beyond its budget, a tile answers every call that passes its check alike. -/
theorem overBudget_of_spent (limited : session.tile.budget = some limit)
    (spent : limit < session.bytes) (passed : call.check session.rows = .ok ())
    (positive : 0 ≤ session.bits) (fits : (call.after session).bits < wordSize) :
    (call.put session).1 = .error (.overBudget limit) := by
  have grown := grown_after session call
  have further := grown.bits_le
  have size := Session.size_eq (call.after session) (by omega) fits
  rw [put_of_check passed, FrameTile.checkBudget, grown.budget_eq, limited]
  refine if_pos ?_
  unfold Session.bytes at spent size
  omega

end Put

/-! ## Runs of calls -/

section Runs

variable {session : Session (FrameTile Payload)} {limit : Nat}

theorem grown_putAll (session : Session (FrameTile Payload)) (calls : List PrimitiveCall) :
    Grown session (putAll session calls) := by
  induction calls generalizing session with
  | nil => exact grown_self session
  | cons call rest ih => exact (grown_put session call).trans (ih _)

/-- A tile with a budget codes what the tile without it does. -/
theorem putAll_withBudget (session : Session (FrameTile Payload)) (budget : Option Nat)
    (calls : List PrimitiveCall) :
    putAll (session.withBudget budget) calls = (putAll session calls).withBudget budget := by
  induction calls generalizing session with
  | nil => rfl
  | cons call rest ih =>
      show putAll (call.put (session.withBudget budget)).2 rest = _
      rw [put_withBudget, ih]
      rfl

/-- From within its budget, a tile is told of an overflow just when it ends beyond the budget, as long
as the bits are a word. -/
theorem overflows_iff (limited : session.tile.budget = some limit)
    (within : session.bytes ≤ limit) (positive : 0 ≤ session.bits) (calls : List PrimitiveCall)
    (fits : (putAll session calls).bits < wordSize) :
    Overflows calls session ↔ limit < (putAll session calls).bytes := by
  induction calls generalizing session with
  | nil => exact iff_of_false id (by simpa [putAll] using within)
  | cons call rest ih =>
      show _ ∨ _ ↔ limit < (putAll (call.put session).2 rest).bytes
      have grown := grown_put session call
      have growing := grown_putAll (call.put session).2 rest
      have fits : (putAll (call.put session).2 rest).bits < wordSize := fits
      have here := grown.bits_le
      have later := growing.bits_le
      rw [overflows_here_iff limited]
      by_cases kept : (call.put session).2.bytes ≤ limit
      · rw [← ih (grown.budget_eq.trans limited) kept (by omega) fits]
        refine or_iff_right ?_
        rintro ⟨passed, spent⟩
        rw [put_snd_of_check passed] at kept here later fits
        have size := Session.size_eq (call.after session) (by omega) (by omega)
        omega
      · -- the call itself went beyond the budget, and later ones do not come back
        refine iff_of_true (.inl ?_) ?_
        · cases checked : call.check session.rows with
          | error error =>
              rw [put_of_refused checked] at kept
              exact absurd within kept
          | ok =>
              rw [put_snd_of_check checked] at kept here later fits
              have size := Session.size_eq (call.after session) (by omega) (by omega)
              exact ⟨rfl, by omega⟩
        · unfold Session.bytes at *
          omega

/-- A budget of `endless` bytes is not exceeded by any position. -/
theorem not_overflows_of_endless (limited : session.tile.budget = some limit)
    (large : endless ≤ limit) (calls : List PrimitiveCall) : ¬Overflows calls session := by
  induction calls generalizing session with
  | nil => exact id
  | cons call rest ih =>
      rintro (here | later)
      · obtain ⟨-, spent⟩ := (overflows_here_iff limited).mp here
        have position := word_lt (call.after session).tile.writer.coder.bits
        unfold FrameTile.size Writer.tell at spent
        unfold endless wordSize at *
        omega
      · exact ih ((grown_put session call).budget_eq.trans limited) later

end Runs

end PrimitiveCall

/-- **The budget of a tile is exact as long as the bits are a word.** Whatever calls are made, accepted
or not, the payload has just as many bytes as the bits take, and with a limit the tile ends with the same
payload and outcome if the payload is within it. The position takes as many bytes just if the bits are
a word. Then the payload is within the limit just if none of the calls was told of an overflow; and once
one was, so is every later call that passes its check and leaves the bits a word. But no call is told of
one if the limit has `endless` bytes. -/
theorem budget_exact {frame : Frame} (unlimited : frame.budget = none) (id : Nat) (rows : List Cdf)
    {limit : Nat} (positive : 1 ≤ limit) (calls : List PrimitiveCall) :
    let start : Session (FrameTile Payload) := ⟨rows, frame.writeTile id⟩
    let limited : Session (FrameTile Payload) := ⟨rows, (frame.withBudget limit).writeTile id⟩
    let last := PrimitiveCall.putAll start calls
    let lastLimited := PrimitiveCall.putAll limited calls
    ∃ payload outcome,
      last.tile.finish = .ok (payload, outcome) ∧
        payload.length = (last.bits + 7) / 8 ∧
        (lastLimited.tile.finish =
          if payload.length ≤ limit then .ok (payload, outcome) else .error (.overBudget limit)) ∧
        (payload.length = (last.tile.writer.coder.tell + 7) / 8 ↔ last.bits < wordSize) ∧
        (last.bits < wordSize →
          (payload.length ≤ limit ↔ ¬PrimitiveCall.Overflows calls limited)) ∧
        (PrimitiveCall.Overflows calls limited →
          ∀ next : PrimitiveCall, next.check lastLimited.rows = .ok () →
            (next.after lastLimited).bits < wordSize →
              (next.put lastLimited).1 = .error (.overBudget limit)) ∧
        (endless ≤ limit → ¬PrimitiveCall.Overflows calls limited) := by
  intro start limited last lastLimited
  have same : lastLimited = last.withBudget (some limit) :=
    PrimitiveCall.putAll_withBudget start (some limit) calls
  have bits_eq : lastLimited.bits = last.bits := by
    rw [same]
    rfl
  have grown : PrimitiveCall.Grown start last := PrimitiveCall.grown_putAll start calls
  have grown_limited : PrimitiveCall.Grown limited lastLimited :=
    PrimitiveCall.grown_putAll limited calls
  have spends : limited.tile.budget = some limit := rfl
  have within : limited.bytes ≤ limit := positive
  have further : 1 ≤ last.bits := grown.bits_le
  have length : (last.tile.writer.coder.finish.length : Int) = (last.bits + 7) / 8 :=
    Writer.length_finish_eq (grown.count_ge (Int.le_refl _))
  have overflows_iff (fits : last.bits < wordSize) :
      PrimitiveCall.Overflows calls limited ↔ limit < lastLimited.bytes :=
    PrimitiveCall.overflows_iff spends within (show (0 : Int) ≤ 1 by decide) calls
      (bits_eq.trans_lt fits)
  refine ⟨_, _, FrameTile.finish_eq (grown.budget_eq.trans unlimited), length, ?_, ?_, ?_, ?_, ?_⟩
  · rw [same]
    exact FrameTile.finish_of_budget rfl
  · have position : (last.tile.writer.coder.tell : Int) = last.bits % wordSize := word_cast _
    unfold wordSize at *
    omega
  · intro fits
    rw [overflows_iff fits]
    unfold Session.bytes
    omega
  · intro before next passed fits
    have on := (PrimitiveCall.grown_after lastLimited next).bits_le
    have spent := (overflows_iff (by omega)).mp before
    exact PrimitiveCall.overBudget_of_spent (grown_limited.budget_eq.trans spends) spent passed
      (by omega) fits
  · intro large
    exact PrimitiveCall.not_overflows_of_endless spends large calls

/-- Two bytes are enough for the first two calls that are accepted, but not for the twenty bits of the
third. A call is refused before it and another one after it, and the last call, which passes its check,
is told of the overflow as well. -/
theorem budget_exact_spent :
    let frame : Frame := ⟨.keyFrame, .initial, none⟩
    let rows : List Cdf := [[20000, 9000, 0, 0]]
    let calls : List PrimitiveCall :=
      [.given (.flag 12345) true, .given (.flag 0) true, .owned 0 2,
        .given (.number (.literal 20)) 987654, .given (.symbol [9000, 0, 0]) 2]
    let next : PrimitiveCall := .owned 0 1
    let start : Session (FrameTile Payload) := ⟨rows, frame.writeTile 0⟩
    let limited : Session (FrameTile Payload) := ⟨rows, (frame.withBudget 2).writeTile 0⟩
    let lastLimited := PrimitiveCall.putAll limited calls
    frame.budget = none ∧ ¬PrimitiveCall.Overflows (calls.take 3) limited ∧
      PrimitiveCall.Overflows calls limited ∧
      next.check lastLimited.rows = .ok () ∧
      (next.put lastLimited).1 = .error (.overBudget 2) ∧
      lastLimited.tile.finish = .error (.overBudget 2) ∧
      ∃ payload outcome,
        (PrimitiveCall.putAll start calls).tile.finish = .ok (payload, outcome) ∧
          payload.length = 4 := by
  intro frame rows calls next start limited lastLimited
  have unlimited : frame.budget = none := rfl
  have early := budget_exact unlimited 0 rows (show 1 ≤ 2 by decide) (calls.take 3)
  have all := budget_exact unlimited 0 rows (show 1 ≤ 2 by decide) calls
  dsimp only at early all
  obtain ⟨front, _, -, front_length, -, -, front_within, -⟩ := early
  obtain ⟨payload, outcome, finish, length, finish_limited, -, within, still, -⟩ := all
  have front_fits : (PrimitiveCall.putAll start (calls.take 3)).bits < wordSize := by decide +kernel
  have fits : (PrimitiveCall.putAll start calls).bits < wordSize := by decide +kernel
  have next_fits : (next.after lastLimited).bits < wordSize := by decide +kernel
  have short : front.length = 1 := Int.ofNat_inj.mp (front_length.trans (by decide +kernel))
  have long : payload.length = 4 := Int.ofNat_inj.mp (length.trans (by decide +kernel))
  have overflows : PrimitiveCall.Overflows calls limited :=
    not_not.mp fun kept => absurd ((within fits).mpr kept) (by omega)
  have passed : next.check lastLimited.rows = .ok () := by decide +kernel
  rw [long, if_neg (by decide)] at finish_limited
  exact ⟨unlimited, (front_within front_fits).mp (by omega), overflows, passed,
    still overflows next passed next_fits, finish_limited, payload, outcome, finish, long⟩

/-! ## Beyond the words -/

/-- Of as many flags as make a payload of more than `endless` bytes, no call is told that it is beyond a
limit of `endless` bytes, but the payload is refused at the end. -/
theorem budget_unlikely {frame : Frame} (unlimited : frame.budget = none) {flags : Nat}
    (many : 8 * endless ≤ 7 * flags) :
    let calls : List PrimitiveCall := List.replicate flags (.given (.flag 32767) false)
    let start : Session (FrameTile Payload) := ⟨[], frame.writeTile 0⟩
    let limited : Session (FrameTile Payload) := ⟨[], (frame.withBudget endless).writeTile 0⟩
    let last := PrimitiveCall.putAll start calls
    ∃ payload outcome,
      last.tile.finish = .ok (payload, outcome) ∧ endless < payload.length ∧
        payload.length ≠ (last.tile.writer.coder.tell + 7) / 8 ∧
        (PrimitiveCall.putAll limited calls).tile.finish = .error (.overBudget endless) ∧
        ¬PrimitiveCall.Overflows calls limited := by
  intro calls start limited last
  have codes (before : Session (FrameTile Payload)) :
      (PrimitiveCall.put before (.given (.flag 32767) false)).2.tile.writer.coder =
        before.tile.writer.coder.flag 32767 false := by
    rw [PrimitiveCall.put_snd_of_check rfl]
    rfl
  have coder : last.tile.writer.coder = Writer.unlikely flags :=
    Writer.coder_foldl_unlikely
      (fun session : Session (FrameTile Payload) => session.tile.writer.coder) rfl codes flags
  have same : PrimitiveCall.putAll limited calls = last.withBudget (some endless) :=
    PrimitiveCall.putAll_withBudget start (some endless) calls
  have free : last.tile.budget = none :=
    (PrimitiveCall.grown_putAll start calls).budget_eq.trans unlimited
  have long : endless < last.tile.writer.coder.finish.length := by
    have length := Writer.length_finish_unlikely flags
    rw [coder]
    omega
  refine ⟨_, _, FrameTile.finish_eq free, long, ?_, ?_, ?_⟩
  · have position : last.tile.writer.coder.tell < wordSize := word_lt _
    unfold endless wordSize at *
    omega
  · rw [same, FrameTile.finish_of_budget rfl]
    exact if_neg (Nat.not_le_of_lt long)
  · exact PrimitiveCall.not_overflows_of_endless rfl (Nat.le_refl _) calls

/-- **A budget may be exceeded unnoticed.** From 1073741824 flags come more than `endless` bytes: the
position takes fewer bytes than the payload has, no call is told of an overflow, and the tile does not end
within its limit. -/
theorem budget_overlong :
    let frame : Frame := ⟨.keyFrame, .initial, none⟩
    let calls : List PrimitiveCall := List.replicate 1073741824 (.given (.flag 32767) false)
    let start : Session (FrameTile Payload) := ⟨[], frame.writeTile 0⟩
    let limited : Session (FrameTile Payload) := ⟨[], (frame.withBudget endless).writeTile 0⟩
    let last := PrimitiveCall.putAll start calls
    frame.budget = none ∧ ∃ payload outcome,
      last.tile.finish = .ok (payload, outcome) ∧ endless < payload.length ∧
        payload.length ≠ (last.tile.writer.coder.tell + 7) / 8 ∧
        (PrimitiveCall.putAll limited calls).tile.finish = .error (.overBudget endless) ∧
        ¬PrimitiveCall.Overflows calls limited :=
  ⟨rfl, budget_unlikely rfl (by decide)⟩

end TileCoder
