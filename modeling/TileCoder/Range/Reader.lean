import TileCoder.Range.Position

/-!
The range coder's reading side.

A `Reader` holds a window on the payload: `window / 65536` is the point of the range that the
payload selects, counted from the upper end, and below it come the bits that are already loaded.
Behind the payload the window is filled with ones, so reading goes on past the end; but a read that
uses up more bits than there are fails with `truncatedStream`, and every later one does too.

The position is not kept as such. It is what the loaded bytes, less the bits that wait in the
window, come to; where bits are counted that no byte has brought, `offset` makes up for them. What is
compared with the end of the payload is a word, so that the end of a payload with as many bits as
there are words is never found.
-/

namespace TileCoder.Range

open scoped Plain

/-- A decoder in the middle of a payload. -/
structure Reader where
  /-- The bytes that are not loaded yet. -/
  rest : List UInt8
  /-- The length of the whole payload. -/
  size : Nat
  /-- The number of bytes that are loaded. -/
  loaded : Nat
  window : Nat
  range : Nat
  /-- The number of loaded bits below the top of the window (less one), or `plenty` of them once
  all bytes are loaded. -/
  count : Int
  /-- What is missing from the loaded bits, less `count`, to the position. -/
  offset : Int
  deriving DecidableEq, Repr

namespace Reader

/-- Loads bytes into a window as long as a whole one fits below the `count` bits it has. -/
def load : (rest : List UInt8) → (loaded window : Nat) → (count : Int) →
    List UInt8 × Nat × Nat × Int
  | [], loaded, window, count => ([], loaded, window, count)
  | byte :: rest, loaded, window, count =>
      if 8 < count then (byte :: rest, loaded, window, count)
      else load rest (loaded + 1) (window - byte.toNat * 2 ^ (8 - count).toNat) (count + 8)

/-- The count of bits behind the payload: so many that it is long before they are used up. -/
def plenty : Int := 16384

/-- Loads the bytes that fit. Behind the last one there are bits in plenty, all of them ones. -/
def refill (reader : Reader) : Reader :=
  let (rest, loaded, window, count) := load reader.rest reader.loaded reader.window reader.count
  if rest = [] then
    { reader with
      rest, loaded, window
      count := plenty
      offset := reader.offset + (plenty - count) }
  else { reader with rest, loaded, window, count }

/-- A decoder at the start of a payload. -/
def ofBytes (payload : List UInt8) : Reader :=
  refill
    { rest := payload
      size := payload.length
      loaded := 0
      window := 2147483647
      range := fullRange
      count := -15
      offset := -14 }

/-- The number of bits read so far, the open one included, as the fields of a reader make it up. -/
def bits (reader : Reader) : Int := 8 * reader.loaded - reader.count + reader.offset

/-- The position: the number of bits as a word. -/
def tell (reader : Reader) : Nat := word reader.bits

def tellEighths (reader : Reader) : Nat := usedEighths reader.tell reader.range

def position (reader : Reader) : Nat × Nat := (reader.tell, reader.tellEighths)

/-- Goes on with a part of the range, which is scaled up to a range again. -/
def enter (reader : Reader) (window part : Nat) : Reader :=
  let shift := headroom part
  let next :=
    { reader with
      window := (window + 1) * 2 ^ shift - 1
      range := part * 2 ^ shift
      count := reader.count - shift }
  if next.count < 0 then next.refill else next

/-- Whether the position is behind the end of the payload. -/
def exhausted (reader : Reader) : Bool := reader.size * 8 < reader.tell

/-- Delivers a value unless it was read past the end. -/
def deliver {α : Type} (reader : Reader) (value : α) : Except CodingError α × Reader :=
  if reader.exhausted then (.error .truncatedStream, reader) else (.ok value, reader)

/-- Reads a flag that is set with probability `value / 32768`. -/
def flag (reader : Reader) (value : Nat) : Except CodingError Bool × Reader :=
  let part := scale reader.range value + minPart
  if part ≤ reader.window / 65536 then
    (reader.enter (reader.window - part * 65536) (reader.range - part)).deliver false
  else (reader.enter reader.window part).deliver true

def bit (reader : Reader) : Except CodingError Bool × Reader := reader.flag evenOdds

/-- A symbol and the ends of its part of the range. -/
structure Choice where
  symbol : Nat
  upper : Nat
  lower : Nat
  deriving DecidableEq, Repr

/-- Walks down the values of a distribution to the first whose lower end is not above `point`. -/
def choose (range point : Nat) : (values : List Nat) → (symbol upper : Nat) → Choice
  | [], symbol, upper => ⟨symbol, upper, upper⟩
  | value :: rest, symbol, upper =>
      let lower := scale range value + minPart * (rest.length - 1)
      if lower ≤ point ∨ rest.length ≤ 1 then ⟨symbol, upper, lower⟩
      else choose range point rest (symbol + 1) lower

/-- Reads a symbol. A row that is no distribution is found out before the reader moves: by its
terminal or counter, or because the part selected is empty, too high or not around the point. -/
def symbol (reader : Reader) (cdf : Cdf) : Except CodingError Nat × Reader :=
  if cdf.length < 3 ∨ cdf.terminal ≠ 0 ∨ Cdf.countMax < cdf.count then
    (.error .corruptCdf, reader)
  else
    let point := reader.window / 65536
    let choice := choose reader.range point cdf 0 reader.range
    if choice.upper ≤ choice.lower ∨ reader.range < choice.upper ∨ point < choice.lower then
      (.error .corruptCdf, reader)
    else
      (reader.enter (reader.window - choice.lower * 65536)
        (choice.upper - choice.lower)).deliver choice.symbol

end Reader

end TileCoder.Range
