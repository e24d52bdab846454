import TileCoder.Element.Number
import TileCoder.Tile.Reader

/-!
What a tile codes outside of its elements.

A `Primitive` is a flag or a symbol with a distribution of the caller, or a number as bare bits. Put
and get do as they are told. `Primitive.check` and `Primitive.checkRead` say what may be asked of
them: a coder that was handed a bad distribution, or a value outside of it, could not be followed by
any decoder.
-/

namespace TileCoder

open TileCoder.Range

/-- A flag, a symbol or a number. -/
inductive Primitive : Type → Type where
  /-- A flag that is set with probability `mass / 32768`. -/
  | flag (mass : Nat) : Primitive Bool
  /-- A symbol of a trained distribution. -/
  | symbol (cdf : Cdf) : Primitive Nat
  /-- A symbol of a distribution that adapts. -/
  | adapting (cdf : Cdf) : Primitive Nat
  | number (number : Number) : Primitive Nat
  /-- A number from `low` up to but not including `high`, given a reference. -/
  | signed (low high : Int) (k : Nat) (reference : Int) : Primitive Int

namespace Primitive

/-- Refuses a flag that can have one value only. -/
def checkMass (mass : Nat) : Except CodingError Unit :=
  if 0 < mass ∧ mass < Cdf.top then .ok () else .error .invalidProbability

/-- Refuses what must not be coded. -/
def check {α : Type} : Primitive α → α → Except CodingError Unit
  | flag mass, _ => checkMass mass
  | symbol cdf, value => do
      cdf.checkStrict
      checkSymbol value cdf.arity
  | adapting cdf, value => do
      cdf.checkCodable
      checkSymbol value cdf.arity
  | number code, value => code.check value
  | signed .., _ => .ok ()

/-- Refuses what must not be read. -/
def checkRead {α : Type} : Primitive α → Except CodingError Unit
  | flag mass => checkMass mass
  | symbol cdf => cdf.checkStrict
  | adapting cdf => cdf.checkCodable
  | number code => code.checkRead
  | signed .. => .ok ()

end Primitive

/-- The distribution after a symbol, unless the tile does not adapt. -/
def Cdf.adapt (cdf : Cdf) (adapts : Bool) (symbol : Nat) : Cdf :=
  if adapts then cdf.update symbol else cdf

namespace TileWriter

variable {σ : Type} [Output σ]

def bits (tile : TileWriter σ) (bits : List Bool) : TileWriter σ :=
  { tile with coder := bits.foldl Writer.bit tile.coder }

def put {α : Type} (tile : TileWriter σ) : Primitive α → α → TileWriter σ
  | .flag mass, value => { tile with coder := tile.coder.flag mass value }
  | .symbol cdf, value | .adapting cdf, value =>
      { tile with coder := tile.coder.symbol cdf value }
  | .number code, value => tile.bits (code.bits value)
  | .signed low high k reference, value => tile.bits (Code.signedSubexp low high k reference value)

/-- Codes a symbol, and adapts its distribution. -/
def putAdapting (tile : TileWriter σ) (cdf : Cdf) (value : Nat) : Cdf × TileWriter σ :=
  (cdf.adapt tile.adapts value, tile.put (.adapting cdf) value)

end TileWriter

namespace TileReader

/-- Reads with the coder alone. -/
def coded {α : Type} (tile : TileReader) (result : Except CodingError α × Reader) :
    Except CodingError α × TileReader :=
  (result.1, { tile with coder := result.2 })

def get {α : Type} (tile : TileReader) : Primitive α → Except CodingError α × TileReader
  | .flag mass => tile.coded (tile.coder.flag mass)
  | .symbol cdf | .adapting cdf => tile.coded (tile.coder.symbol cdf)
  | .number code => tile.run code.read
  | .signed low high k reference => tile.run (Code.readSignedSubexp low high k reference)

/-- Adapts a distribution to the symbol that was read with it. -/
def adaptTo (cdf : Cdf) (read : Except CodingError Nat × TileReader) :
    Cdf × Except CodingError Nat × TileReader :=
  match read with
  | (.ok value, tile) => (cdf.adapt tile.adapts value, .ok value, tile)
  | (.error error, tile) => (cdf, .error error, tile)

/-- Reads a symbol, and adapts its distribution. -/
def getAdapting (tile : TileReader) (cdf : Cdf) : Cdf × Except CodingError Nat × TileReader :=
  adaptTo cdf (tile.get (.adapting cdf))

/-- Reads a primitive, once it is checked. -/
def getChecked {α : Type} (tile : TileReader) (primitive : Primitive α) :
    Except CodingError α × TileReader :=
  match primitive.checkRead with
  | .error error => (.error error, tile)
  | .ok () => tile.get primitive

/-- Reads a symbol, once its distribution is checked, and adapts the distribution. -/
def getCheckedAdapting (tile : TileReader) (cdf : Cdf) :
    Cdf × Except CodingError Nat × TileReader :=
  adaptTo cdf (tile.getChecked (.adapting cdf))

end TileReader

end TileCoder
