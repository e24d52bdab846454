import TileCoder.Element.Program

/-!
The factors by which the two chroma planes follow luma.

Both signs are one symbol, as they are not both zero; then come the magnitudes that are not zero.
-/

namespace TileCoder

inductive FactorSign where
  | zero | negative | positive
  deriving DecidableEq, Repr, Inhabited

namespace FactorSign

def all : List FactorSign := [zero, negative, positive]

def index (sign : FactorSign) : Nat := sign.ctorIdx

/-- The sign of a number below three; others stand for a positive one. -/
def ofIndex : Nat → FactorSign
  | 0 => zero
  | 1 => negative
  | _ => positive

def ofInt (value : Int) : FactorSign :=
  if value = 0 then zero else if value < 0 then negative else positive

/-- A magnitude with this sign. -/
def apply (sign : FactorSign) (scale : Nat) : Int :=
  match sign with
  | zero => 0
  | negative => -scale
  | positive => scale

end FactorSign

structure LumaFactor where
  sign : FactorSign
  scale : Nat
  deriving DecidableEq, Repr, Inhabited

namespace LumaFactor

def value (factor : LumaFactor) : Int := factor.sign.apply factor.scale

/-- The factor of a number, whose magnitude is a byte. -/
def ofInt (value : Int) : LumaFactor := ⟨.ofInt value, value.natAbs % 256⟩

/-- Whether the magnitude can be coded: zero for the sign zero, and from 1 to 16 otherwise. -/
def IsValid (factor : LumaFactor) : Prop :=
  if factor.sign = .zero then factor.scale = 0 else 1 ≤ factor.scale ∧ factor.scale ≤ 16

instance (factor : LumaFactor) : Decidable factor.IsValid := by
  unfold IsValid
  infer_instance

end LumaFactor

structure LumaFactors where
  blue : LumaFactor
  red : LumaFactor
  deriving DecidableEq, Repr, Inhabited

namespace LumaFactors

/-- Whether both factors can be coded; one of them is not zero. -/
def IsValid (factors : LumaFactors) : Prop :=
  (factors.blue.sign ≠ .zero ∨ factors.red.sign ≠ .zero) ∧
    factors.blue.IsValid ∧ factors.red.IsValid

instance (factors : LumaFactors) : Decidable factors.IsValid :=
  inferInstanceAs (Decidable (_ ∧ _ ∧ _))

/-- The least factors in use. -/
def least : LumaFactors := ⟨⟨.negative, 1⟩, ⟨.zero, 0⟩⟩

def jointSign (factors : LumaFactors) : Nat :=
  3 * factors.blue.sign.index + factors.red.sign.index - 1

def signsOf (joint : Nat) : FactorSign × FactorSign :=
  (.ofIndex ((joint + 1) / 3), .ofIndex ((joint + 1) % 3))

/-- The context of a magnitude: its sign, which is not zero, and that of the other plane. -/
def context (sign other : FactorSign) : Nat := 3 * (sign.index - 1) + other.index

def scaleSymbol (factor : LumaFactor) : Nat := factor.scale - 1

/-- The context and the symbol of each magnitude that is coded. -/
def scaleSymbols (factors : LumaFactors) : List (Option (Nat × Nat)) :=
  let coded (factor : LumaFactor) (other : FactorSign) :=
    if factor.sign = .zero then none else some (context factor.sign other, scaleSymbol factor)
  [coded factors.blue factors.red.sign, coded factors.red factors.blue.sign]

def writeScale (factor : LumaFactor) (other : FactorSign) : Plan Unit :=
  if factor.sign = .zero then pure ()
  else Plan.symbol (Table.lumaFactor.at (context factor.sign other)) (scaleSymbol factor)

def readScale (sign other : FactorSign) : Parse LumaFactor := do
  if sign = .zero then return ⟨sign, 0⟩
  let symbol ← Parse.readSymbol (Table.lumaFactor.at (context sign other))
  return ⟨sign, symbol + 1⟩

def write (factors : LumaFactors) : Plan Unit := do
  if ¬factors.IsValid then throw .invalidElement
  Plan.symbol Table.lumaFactorSigns.only factors.jointSign
  writeScale factors.blue factors.red.sign
  writeScale factors.red factors.blue.sign

def read : Parse LumaFactors := do
  let joint ← Parse.readSymbol Table.lumaFactorSigns.only
  let (blue, red) := signsOf joint
  let blueFactor ← readScale blue red
  let redFactor ← readScale red blue
  return ⟨blueFactor, redFactor⟩

end LumaFactors

end TileCoder
