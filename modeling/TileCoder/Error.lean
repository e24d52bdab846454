/-!
Why coding can fail. Each constructor is one cause; `CodingError.message` words it.
-/

namespace TileCoder

/-- What stops the coding or decoding of a tile or a frame. -/
inductive CodingError where
  /-- A symbol lies past the end of the payload. -/
  | truncatedStream
  /-- A table that is being decoded with is no distribution. -/
  | corruptCdf
  /-- A symbol lies outside its alphabet. -/
  | invalidSymbol (value arity : Nat)
  /-- A distribution handed in by the caller is not one. -/
  | invalidProbability
  /-- The payload of a tile has outgrown its budget. -/
  | overBudget (limit : Nat)
  /-- The slot to inherit from was never filled. -/
  | missingReference (slot : Nat)
  /-- The element has no way to say this value. -/
  | invalidElement
  /-- The decoded symbols stand for no value of the element. -/
  | corruptElement
  /-- A number of entries is no machine word. The program does not go on. -/
  | overflow
  deriving DecidableEq, Repr, Inhabited

namespace CodingError

def message : CodingError → String
  | truncatedStream => "truncated stream: symbol read past the end of the tile payload"
  | corruptCdf => "corrupt CDF encountered while decoding"
  | invalidSymbol value arity => s!"invalid symbol {value} (expected < {arity})"
  | invalidProbability => "invalid probability (expected a valid Q15 distribution)"
  | overBudget limit => s!"tile payload exceeds its {limit} byte budget"
  | missingReference slot => s!"reference slot {slot} holds no saved entropy state"
  | invalidElement => "value cannot be expressed by its syntax element"
  | corruptElement => "decoded value is outside the domain of its syntax element"
  | overflow => "attempt to multiply with overflow"

end CodingError

/-- What is computed in two steps succeeds if both do. -/
theorem bind_eq_ok {ε α β : Type} {first : Except ε α} {next : α → Except ε β} {b : β} :
    (first >>= next) = .ok b ↔ ∃ a, first = .ok a ∧ next a = .ok b := by
  cases first with
  | error error => simp [bind, Except.bind]
  | ok a => simp [bind, Except.bind]

/-- Accepts the values below `arity`. -/
def checkSymbol (value arity : Nat) : Except CodingError Unit :=
  if value < arity then .ok () else .error (.invalidSymbol value arity)

theorem checkSymbol_eq_ok {value arity : Nat} :
    checkSymbol value arity = .ok () ↔ value < arity := by
  unfold checkSymbol
  split <;> simp_all

end TileCoder
