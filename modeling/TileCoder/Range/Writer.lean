import TileCoder.Range.Position

/-!
The range coder's writing side.

A `Writer` narrows its range by one token after another and hands the digits that fall out to an
`Output`. Three outputs exist. A `Payload` keeps the bytes, with carries still unresolved, and
`Writer.finish` makes the payload of them. A `Recording` keeps the tokens, and `Writer.replay` codes
them into another writer. A `BitCount` keeps the length alone.

All three agree on `Writer.tell`, and a `Checkpoint` takes any of them back.
-/

namespace TileCoder.Range

open scoped Plain

/-- A coder: the current range, the count of pending bits (less nine), and what was put out. -/
structure Writer (σ : Type) where
  range : Nat
  count : Int
  out : σ
  deriving DecidableEq, Repr

/-- The length of an output, as a checkpoint remembers it. -/
structure Mark where
  stream : Nat
  extra : Nat
  deriving DecidableEq, Repr, Inhabited

/-- A place where a coder keeps what it has coded. -/
class Output (σ : Type) where
  empty : σ
  /-- Codes one token. -/
  put : Writer σ → Token → Writer σ
  /-- The number of bits that have left the coder. -/
  bits : σ → Nat
  mark : σ → Mark
  /-- Cuts back to a mark. -/
  cut : σ → Mark → σ

/-- Bytes that a carry may still reach, and the low end of the range below them. -/
structure Payload where
  pending : Array Nat
  low : Nat
  deriving DecidableEq, Repr

/-- The tokens coded so far, and the number of bytes they would fill. -/
structure Recording where
  tokens : Array Token
  bytes : Nat
  deriving DecidableEq, Repr

/-- The number of bits shifted out. -/
structure BitCount where
  bits : Nat
  deriving DecidableEq, Repr

namespace Payload

/-- Narrows the range and moves out the bytes that are complete: none, one or two. -/
def put (writer : Writer Payload) (token : Token) : Writer Payload :=
  let part := token.part writer.range
  let low := writer.out.low + part.offset
  let shift := headroom part.size
  let range := part.size * 2 ^ shift
  let count := writer.count + shift
  if count < 0 then ⟨range, count, ⟨writer.out.pending, low * 2 ^ shift⟩⟩
  else
    let width := (writer.count + 16).toNat
    let pending := writer.out.pending.push (low / 2 ^ width)
    let low := low % 2 ^ width
    if count < 8 then ⟨range, count - 8, ⟨pending, low * 2 ^ shift⟩⟩
    else
      let width := width - 8
      ⟨range, count - 16, ⟨pending.push (low / 2 ^ width), low % 2 ^ width * 2 ^ shift⟩⟩

end Payload

instance : Output Payload where
  empty := ⟨#[], 0⟩
  put := Payload.put
  bits out := out.pending.size * 8
  mark out := ⟨out.pending.size, out.low⟩
  cut out mark := ⟨out.pending.take mark.stream, mark.extra⟩

/-- The number of bytes that leave a coder whose count has grown to `count`. -/
def bytesOut (count : Int) : Nat := if count < 0 then 0 else if count < 8 then 1 else 2

/-- Narrows the range, keeps the token and counts the bytes that are complete. -/
def Recording.put (writer : Writer Recording) (token : Token) : Writer Recording :=
  let part := token.part writer.range
  let shift := headroom part.size
  let count := writer.count + shift
  let bytes := bytesOut count
  let total := writer.out.bytes + bytes
  ⟨part.size * 2 ^ shift, count - 8 * bytes, ⟨writer.out.tokens.push token, total⟩⟩

instance : Output Recording where
  empty := ⟨#[], 0⟩
  put := Recording.put
  bits out := out.bytes * 8
  mark out := ⟨out.bytes, out.tokens.size⟩
  cut out mark := ⟨out.tokens.take mark.extra, mark.stream⟩

/-- Narrows the range and counts the bits that this takes. -/
def BitCount.put (writer : Writer BitCount) (token : Token) : Writer BitCount :=
  let part := token.part writer.range
  let shift := headroom part.size
  ⟨part.size * 2 ^ shift, writer.count, ⟨writer.out.bits + shift⟩⟩

instance : Output BitCount where
  empty := ⟨0⟩
  put := BitCount.put
  bits out := out.bits
  mark out := ⟨out.bits, 0⟩
  cut _ mark := ⟨mark.stream⟩

/-- Where a writer was. -/
structure Checkpoint where
  range : Nat
  count : Int
  mark : Mark
  deriving DecidableEq, Repr, Inhabited

namespace Writer

variable {σ τ : Type} [Output σ] [Output τ]

/-- A writer that has coded nothing. -/
def new : Writer σ := ⟨fullRange, -9, Output.empty⟩

def put (writer : Writer σ) (token : Token) : Writer σ := Output.put writer token

def symbol (writer : Writer σ) (cdf : Cdf) (symbol : Nat) : Writer σ :=
  writer.put (.ofSymbol cdf symbol)

/-- Codes a flag that is set with probability `value / 32768`. -/
def flag (writer : Writer σ) (value : Nat) (flag : Bool) : Writer σ :=
  writer.symbol (flagCdf value) flag.toNat

def bit (writer : Writer σ) (bit : Bool) : Writer σ := writer.flag evenOdds bit

/-- The number of bits coded so far, the open one included, however many they are. -/
def bits (writer : Writer σ) : Int := Output.bits writer.out + writer.count + 10

/-- The position: the number of bits as a word. -/
def tell (writer : Writer σ) : Nat := word writer.bits

def tellEighths (writer : Writer σ) : Nat := usedEighths writer.tell writer.range

def position (writer : Writer σ) : Nat × Nat := (writer.tell, writer.tellEighths)

def checkpoint (writer : Writer σ) : Checkpoint :=
  ⟨writer.range, writer.count, Output.mark writer.out⟩

/-- Takes back all that was coded since a checkpoint. -/
def rollback (writer : Writer σ) (saved : Checkpoint) : Writer σ :=
  ⟨saved.range, saved.count, Output.cut writer.out saved.mark⟩

/-- The size of a symbol's part of a range. -/
def partSize (range : Nat) (cdf : Cdf) : (symbol : Nat) → Nat
  | 0 => range - scale range (cdf.getD 0 0) - (cdf.length - 2) * minPart
  | symbol + 1 =>
      scale range (cdf.getD symbol 0) - scale range (cdf.getD (symbol + 1) 0) + minPart

/-- The cost of a symbol in eighths of a bit if it were coded next: the bytes that would leave the
coder and the bits that would be pending, less the bits that are pending now. -/
def symbolCost (writer : Writer σ) (cdf : Cdf) (symbol : Nat) : Nat :=
  let size := partSize writer.range cdf symbol
  let shift := headroom size
  let count := writer.count + shift
  let bytes := bytesOut count
  let pending := count - 8 * bytes
  let used := usedEighths (writer.count + 9) writer.range
  let usedAfter := usedEighths (8 * bytes + pending + 9) (size * 2 ^ shift)
  word (usedAfter - used)

/-- Codes a recording into another writer; the recorder starts over. -/
def replay (recorder : Writer Recording) (target : Writer τ) : Writer τ × Writer Recording :=
  (recorder.out.tokens.foldl Writer.put target, new)

/-- The last bytes of a payload: those of a number within the range that ends in as many zeros as
possible. -/
def lastBytes : (bytes width value : Nat) → List Nat
  | 0, _, _ => []
  | bytes + 1, width, value =>
      value / 2 ^ width :: lastBytes bytes (width - 8) (value % 2 ^ width)

/-- Adds each entry's overflow to the entry in front of it: the overflow of the first entry, and the
bytes that stay. -/
def sweepCarries (pending : List Nat) : Nat × List UInt8 :=
  pending.foldr (fun entry (carry, bytes) =>
    ((carry + entry) / 256, UInt8.ofNat (carry + entry) :: bytes)) (0, [])

/-- The bytes of entries that a carry may have reached. -/
def resolveCarries (pending : List Nat) : List UInt8 := (sweepCarries pending).2

/-- The payload: no bits that follow it change what it says. -/
def finish (writer : Writer Payload) : List UInt8 :=
  let value := (2 * ((writer.out.low + 16383) / 32768) + 1) * 16384
  let bytes := ((writer.count + 17) / 8).toNat
  resolveCarries
    (writer.out.pending.toList ++ lastBytes bytes (writer.count + 16).toNat value)

end Writer

end TileCoder.Range
