import TileCoder.Proofs.Range.Safety
import TileCoder.Proofs.Tile.BareBits
import TileCoder.Proofs.Tile.Kept

/-!
# What a tile answers

Whatever the payload, a tile that is asked for a symbol answers with one of its alphabet, or that the
payload is used up. So of a reader only those branches count that such answers lead to. A reader that
comes to a value in all of them is `Sure`: it fails on no payload but one that is used up
(`Sound.run_sure`). If another reader asks for the same in all of them and comes to the same values, no
payload tells the two apart (`Sound.run_mirrors`).
-/

namespace TileCoder

open TileCoder.Range

variable {α β γ : Type}

namespace Parse

/-! ## Readers that do not fail -/

/-- On all symbols of the alphabets that it asks for, the reader comes to a value. -/
def Sure : Parse α → Prop
  | done _ => True
  | fail _ => False
  | symbol slot next => ∀ value < slot.table.symbols, (next value).Sure
  | gathered slot symbols next => slot.table.Gathers symbols ∧ ∀ flag, (next flag).Sure
  | bit next => ∀ b, (next b).Sure
  | remember _ _ next => next.Sure

/-- What comes next only has to be sure on the values that can be read first. -/
theorem Sure.bind {read : Parse α} {next : α → Parse β} (first : read.Sure)
    (rest : ∀ steps value, read.Takes steps value → (next value).Sure) : (read >>= next).Sure := by
  induction read with
  | done value => exact rest [] value (.done value)
  | fail error => exact first.elim
  | symbol slot more ih =>
      intro value inside
      exact ih value (first value inside) fun steps result takes =>
        rest _ result (.symbol inside takes)
  | gathered slot symbols more ih =>
      obtain ⟨gathers, after⟩ := first
      refine ⟨gathers, ?_⟩
      intro flag
      exact ih flag (after flag) fun steps result takes => rest _ result (.gathered takes)
  | bit more ih =>
      intro b
      exact ih b (first b) fun steps result takes => rest _ result (.bit takes)
  | remember plane memory more ih =>
      exact ih first fun steps result takes => rest _ result (.remember takes)

theorem sure_pure (value : α) : (pure value : Parse α).Sure := trivial

theorem sure_symbol (slot : Slot) : (readSymbol slot).Sure := fun _ _ => trivial

theorem sure_flag (slot : Slot) : (readFlag slot).Sure := fun _ _ => trivial

theorem Sure.ite {condition : Prop} [Decidable condition] {first second : Parse α}
    (first_sure : first.Sure) (second_sure : second.Sure) :
    (if condition then first else second).Sure := by
  split
  · exact first_sure
  · exact second_sure

/-- A reader of bare bits is sure if it settles. -/
theorem Settles.sure {read : Parse α} {width : Nat} (settles : read.Settles width) : read.Sure := by
  induction read generalizing width with
  | done value => exact trivial
  | bit next ih => exact fun b => ih b (settles.2 b)
  | fail | symbol | gathered | remember => exact settles.elim

/-! ## Readers that ask for the same -/

/-- Two readers ask for the same on all symbols of the alphabets that they ask for, and where the
first comes to a value, the other one comes to its image. -/
inductive Mirrors (image : α → β) : Parse α → Parse β → Prop where
  | done (value : α) : Mirrors image (.done value) (.done (image value))
  | fail (error : CodingError) : Mirrors image (.fail error) (.fail error)
  | symbol {slot : Slot} {next : Nat → Parse α} {other : Nat → Parse β}
      (each : ∀ value < slot.table.symbols, Mirrors image (next value) (other value)) :
      Mirrors image (.symbol slot next) (.symbol slot other)
  | gathered {slot : Slot} {symbols : List Nat} {next : Bool → Parse α} {other : Bool → Parse β}
      (gathers : slot.table.Gathers symbols)
      (each : ∀ flag, Mirrors image (next flag) (other flag)) :
      Mirrors image (.gathered slot symbols next) (.gathered slot symbols other)
  | bit {next : Bool → Parse α} {other : Bool → Parse β}
      (each : ∀ b, Mirrors image (next b) (other b)) : Mirrors image (.bit next) (.bit other)
  | remember {plane : Plane} {memory : RestorationMemory} {next : Parse α} {other : Parse β}
      (rest : Mirrors image next other) :
      Mirrors image (.remember plane memory next) (.remember plane memory other)

/-- Two readers with the same beginning have to go on alike only on the values that it can come
to. -/
theorem Sure.mirrors_bind {image : α → β} {first : Parse γ} {next : γ → Parse α}
    {other : γ → Parse β} (sure : first.Sure)
    (rest : ∀ steps value, first.Takes steps value → Mirrors image (next value) (other value)) :
    Mirrors image (first >>= next) (first >>= other) := by
  induction first with
  | done value => exact rest [] value (.done value)
  | fail error => exact sure.elim
  | symbol slot more ih =>
      exact .symbol fun value inside => ih value (sure value inside) fun steps result takes =>
        rest _ result (.symbol inside takes)
  | gathered slot symbols more ih =>
      exact .gathered sure.1 fun flag => ih flag (sure.2 flag) fun steps result takes =>
        rest _ result (.gathered takes)
  | bit more ih =>
      exact .bit fun b => ih b (sure b) fun steps result takes => rest _ result (.bit takes)
  | remember plane memory more ih =>
      exact .remember (ih sure fun steps result takes => rest _ result (.remember takes))

end Parse

/-! ## Tiles -/

/-- A sound coder answers with a symbol of the row, or that the payload is used up. -/
theorem Range.Reader.Sound.symbol_or_end {reader : Reader} (sound : reader.Sound) {cdf : Cdf}
    (usable : cdf.Usable) :
    (∃ symbol, (reader.symbol cdf).1 = .ok symbol ∧ symbol < cdf.arity) ∨
      (reader.symbol cdf).1 = .error .truncatedStream := by
  rcases Reader.answered_symbol reader cdf with inside | corrupt | used_up
  · exact .inl inside
  · exact absurd (congrArg Prod.fst corrupt) (sound.symbol_blameless usable)
  · exact .inr used_up

namespace TileReader

/-- A value of one kind, or that the payload is used up; and the tile is sound in either case. -/
structure Answers (may : α → Prop) (answer : Except CodingError α × TileReader) : Prop where
  sound : answer.2.Sound
  value_or_end : (∃ value, answer.1 = .ok value ∧ may value) ∨ answer.1 = .error .truncatedStream

variable {tile : TileReader}

theorem Sound.answers_symbol (sound : tile.Sound) (slot : Slot) :
    Answers (· < slot.table.symbols) (tile.symbol slot) := by
  have holds := sound.tables slot
  have answer := sound.coder.symbol_or_end holds.usable
  rw [holds.arity_eq] at answer
  refine ⟨(sound.symbol slot).sound, ?_⟩
  unfold TileReader.symbol
  generalize tile.coder.symbol (tile.tables.get slot) = read at answer
  obtain ⟨_ | value, coder⟩ := read <;> exact answer

theorem Sound.answers_gathered (sound : tile.Sound) {slot : Slot} {symbols : List Nat}
    (gathers : slot.table.Gathers symbols) :
    Answers (fun _ => True) (tile.gathered slot symbols) := by
  have usable := (sound.tables slot).usable_gather gathers
  refine ⟨(sound.gathered gathers).sound, ?_⟩
  rcases sound.coder.symbol_or_end usable with ⟨value, ok, -⟩ | used_up
  · exact .inl ⟨value, ok, trivial⟩
  · exact .inr used_up

theorem Sound.answers_bit (sound : tile.Sound) : Answers (fun _ => True) tile.bit := by
  refine ⟨sound.bit.sound, ?_⟩
  show (∃ b, (tile.coder.flag evenOdds).1 = .ok b ∧ True) ∨
    (tile.coder.flag evenOdds).1 = .error .truncatedStream
  unfold Reader.flag
  dsimp only
  split <;> (unfold Reader.deliver; split <;> simp)

theorem Answers.cases {may : α → Prop} {answer : Except CodingError α × TileReader}
    (answers : Answers may answer) :
    (∃ value next, answer = (.ok value, next) ∧ may value ∧ next.Sound) ∨
      ∃ next, answer = (.error .truncatedStream, next) ∧ next.Sound := by
  obtain ⟨sound, ⟨value, ok, holds⟩ | used_up⟩ := answers
  · exact .inl ⟨value, answer.2, Prod.ext ok rfl, holds, sound⟩
  · exact .inr ⟨answer.2, Prod.ext used_up rfl, sound⟩

theorem Answers.mono {may others : α → Prop} {answer : Except CodingError α × TileReader}
    (answers : Answers may answer) (also : ∀ value, may value → others value) :
    Answers others answer :=
  ⟨answers.sound, answers.value_or_end.imp_left fun ⟨value, ok, holds⟩ =>
    ⟨value, ok, also value holds⟩⟩

/-- **A sure reader only fails at the end of the payload.** -/
theorem Sound.run_sure {read : Parse α} (sound : tile.Sound) (sure : read.Sure) :
    Answers (fun value => ∃ steps, read.Takes steps value) (tile.run read) := by
  induction read generalizing tile with
  | done value => exact ⟨sound, .inl ⟨value, rfl, [], .done value⟩⟩
  | fail error => exact sure.elim
  | symbol slot next ih =>
      rw [TileReader.run]
      rcases (sound.answers_symbol slot).cases with
        ⟨value, after, read, inside, still⟩ | ⟨after, read, still⟩
      · rw [read]
        refine (ih value still (sure value inside)).mono ?_
        rintro result ⟨steps, takes⟩
        exact ⟨_, .symbol inside takes⟩
      · rw [read]
        exact ⟨still, .inr rfl⟩
  | gathered slot symbols next ih =>
      obtain ⟨gathers, sure⟩ := sure
      rw [TileReader.run]
      rcases (sound.answers_gathered gathers).cases with
        ⟨value, after, read, -, still⟩ | ⟨after, read, still⟩
      · rw [read]
        refine (ih _ still (sure _)).mono ?_
        rintro result ⟨steps, takes⟩
        exact ⟨_, .gathered takes⟩
      · rw [read]
        exact ⟨still, .inr rfl⟩
  | bit next ih =>
      rw [TileReader.run]
      rcases sound.answers_bit.cases with ⟨b, after, read, -, still⟩ | ⟨after, read, still⟩
      · rw [read]
        refine (ih b still (sure b)).mono ?_
        rintro result ⟨steps, takes⟩
        exact ⟨_, .bit takes⟩
      · rw [read]
        exact ⟨still, .inr rfl⟩
  | remember plane memory next ih =>
      have still : { tile with memories := tile.memories.set plane memory }.Sound :=
        ⟨sound.coder, sound.tables⟩
      refine (ih still sure).mono ?_
      rintro result ⟨steps, takes⟩
      exact ⟨_, .remember takes⟩

/-- **No payload tells two readers apart that ask for the same.** -/
theorem Sound.run_mirrors {image : α → β} {read : Parse α} {other : Parse β} (sound : tile.Sound)
    (mirrors : Parse.Mirrors image read other) :
    tile.run other = ((tile.run read).1.map image, (tile.run read).2) := by
  induction mirrors generalizing tile with
  | done value => rfl
  | fail error => rfl
  | @symbol slot next other each ih =>
      rw [TileReader.run, TileReader.run]
      rcases (sound.answers_symbol slot).cases with
        ⟨value, after, read, inside, still⟩ | ⟨after, read, -⟩
      · rw [read]
        exact ih value inside still
      · rw [read]
        rfl
  | @gathered slot symbols next other gathers each ih =>
      rw [TileReader.run, TileReader.run]
      rcases (sound.answers_gathered gathers).cases with
        ⟨value, after, read, -, still⟩ | ⟨after, read, -⟩
      · rw [read]
        exact ih _ still
      · rw [read]
        rfl
  | bit each ih =>
      rw [TileReader.run, TileReader.run]
      rcases sound.answers_bit.cases with ⟨b, after, read, -, still⟩ | ⟨after, read, -⟩
      · rw [read]
        exact ih b still
      · rw [read]
        rfl
  | remember rest ih => exact ih ⟨sound.coder, sound.tables⟩

end TileReader

end TileCoder
