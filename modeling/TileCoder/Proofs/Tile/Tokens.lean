import TileCoder.Proofs.Tile.Pieces

/-!
# What a coder is handed

A tile looks at its tables, at the filters that it remembers and at the rows of the caller, but
never at its coder: it hands the same tokens to whatever coder it has (`Entry.write_withCoder`). So
it is enough to know what each output makes of tokens.
-/

namespace TileCoder

open TileCoder.Range

variable {σ τ : Type} [Output σ] [Output τ]

/-- The token of a bare bit. -/
def Range.Token.ofBit (bit : Bool) : Token := .ofSymbol (flagCdf evenOdds) bit.toNat

namespace TileWriter

/-- The tile with another coder. -/
def withCoder (tile : TileWriter σ) (coder : Writer τ) : TileWriter τ :=
  { coder
    tables := tile.tables
    log := tile.log
    adapts := tile.adapts
    memories := tile.memories }

/-- The tokens of a step. -/
def stepTokens (tile : TileWriter σ) : Step → List Token
  | .symbol slot value => [.ofSymbol (tile.tables.get slot) value]
  | .gathered slot symbols flag => [.ofSymbol ((tile.tables.get slot).gather symbols) flag.toNat]
  | .bit bit => [.ofBit bit]
  | .remember .. => []

/-- The tokens of some steps, each from the tables that it finds. -/
def tokens (tile : TileWriter σ) : List Step → List Token
  | [] => []
  | taken :: rest => tile.stepTokens taken ++ (tile.step taken).tokens rest

theorem withCoder_step (tile : TileWriter σ) (coder : Writer τ) (taken : Step) :
    (tile.withCoder coder).step taken =
      (tile.step taken).withCoder ((tile.stepTokens taken).foldl Writer.put coder) := by
  cases taken with
  | symbol slot value =>
      show (tile.withCoder coder).symbol slot value = (tile.symbol slot value).withCoder _
      unfold symbol
      show (if tile.adapts = true then _ else _ : TileWriter τ) = _
      split <;> rfl
  | gathered | bit | remember => rfl

theorem withCoder_steps (tile : TileWriter σ) (coder : Writer τ) (steps : List Step) :
    steps.foldl step (tile.withCoder coder) =
      (steps.foldl step tile).withCoder ((tile.tokens steps).foldl Writer.put coder) := by
  induction steps generalizing tile coder with
  | nil => rfl
  | cons taken rest ih =>
      rw [List.foldl_cons, List.foldl_cons, withCoder_step, ih, tokens, List.foldl_append]

end TileWriter

/-- The tokens of a primitive. -/
def Primitive.tokens {α : Type} : Primitive α → α → List Token
  | flag mass, value => [.ofSymbol (flagCdf mass) value.toNat]
  | symbol cdf, value | adapting cdf, value => [.ofSymbol cdf value]
  | number code, value => (code.bits value).map .ofBit
  | signed low high k reference, value =>
      (Code.signedSubexp low high k reference value).map .ofBit

theorem TileWriter.withCoder_put {α : Type} (tile : TileWriter σ) (coder : Writer τ)
    (primitive : Primitive α) (value : α) :
    (tile.withCoder coder).put primitive value =
      (tile.put primitive value).withCoder ((primitive.tokens value).foldl Writer.put coder) := by
  have bits (digits : List Bool) : (digits.map Token.ofBit).foldl Writer.put coder =
      digits.foldl Writer.bit coder := by
    rw [List.foldl_map]
    rfl
  cases primitive with
  | flag | symbol | adapting => rfl
  | number code =>
      rw [Primitive.tokens, bits]
      rfl
  | signed low high k reference =>
      rw [Primitive.tokens, bits]
      rfl

/-- A primitive is put by its tokens. -/
theorem TileWriter.put_eq {α : Type} (tile : TileWriter σ) (primitive : Primitive α) (value : α) :
    tile.put primitive value =
      { tile with coder := (primitive.tokens value).foldl Writer.put tile.coder } := by
  have same := withCoder_put tile tile.coder primitive value
  cases primitive <;> exact same

/-- The session with another coder. -/
def Session.withCoder (session : Session (TileWriter σ)) (coder : Writer τ) :
    Session (TileWriter τ) :=
  ⟨session.rows, session.tile.withCoder coder⟩

/-- The tokens of a piece. -/
def Piece.tokens (session : Session (TileWriter σ)) {α : Type} : Piece α → α → List Token
  | element coded, value => session.tile.tokens (coded.write value).items
  | filter choice plane, value =>
      session.tile.tokens ((session.tile.memories.unit choice plane).write value).items
  | primitive coded, value => coded.tokens value
  | owned row, value => [.ofSymbol (session.rows.getD row []) value]

namespace Entry

/-- The tokens of an entry. -/
def tokens (session : Session (TileWriter σ)) (entry : Entry) : List Token :=
  entry.piece.tokens session entry.value

/-- **A tile hands the same tokens to every coder**, and is the same tile afterwards. -/
theorem write_withCoder (session : Session (TileWriter σ)) (coder : Writer τ) (entry : Entry) :
    entry.write (session.withCoder coder) =
      (entry.write session).withCoder ((entry.tokens session).foldl Writer.put coder) := by
  obtain ⟨piece, value⟩ := entry
  cases piece with
  | element coded =>
      exact congrArg (Session.mk session.rows)
        (TileWriter.withCoder_steps session.tile coder (coded.write value).items)
  | filter choice plane =>
      exact congrArg (Session.mk session.rows) (TileWriter.withCoder_steps session.tile coder _)
  | primitive coded =>
      exact congrArg (Session.mk session.rows)
        (TileWriter.withCoder_put session.tile coder coded value)
  | owned row => rfl

theorem coder_write (session : Session (TileWriter σ)) (entry : Entry) :
    (entry.write session).tile.coder =
      (entry.tokens session).foldl Writer.put session.tile.coder :=
  congrArg (·.tile.coder) (write_withCoder session session.tile.coder entry)

end Entry

end TileCoder
