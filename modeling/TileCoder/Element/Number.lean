import TileCoder.Element.Program

/-!
Numbers that a tile codes as bare bits.

A `Number` is an integer code with its parameters. `Number.bits` are the digits of a value, and
`Number.read` reads them back. A careful caller asks `Number.check` before it writes and
`Number.checkRead` before it reads.
-/

namespace TileCoder

open scoped Plain

/-- An integer code. -/
inductive Number where
  | literal (width : Nat)
  | gamma
  | uniform (size : Nat)
  | subexp (k : Nat)
  | subexpBelow (size k : Nat)
  | subexpAround (size k reference : Nat)
  | bilevel (size span reference : Nat)
  deriving DecidableEq, Repr

namespace Number

def bits : Number → (value : Nat) → List Bool
  | literal width, value => Bits.ofNat width value
  | gamma, value => Code.gamma value
  | uniform size, value => Code.uniform size value
  | subexp k, value => Code.subexp k value
  | subexpBelow size k, value => Code.subexpBelow size k value
  | subexpAround size k reference, value => Code.subexpAround size k reference value
  | bilevel size span reference, value => Code.bilevel size span reference value

/-- The widest bin of a subexponential code. -/
def maxBinWidth : Nat := 32

/-- Reads a number of any size, from the bin `i` on, which starts at `start`. Bins that hold no
words are refused as soon as they are reached. -/
def readSubexpFrom (k i start : Nat) : Parse Nat :=
  let width := Code.binWidth i k
  if maxBinWidth < width then .fail .corruptElement
  else
    .bit fun further =>
      if further then
        if wordSize ≤ start + Code.binSize i k then .fail .corruptElement
        else readSubexpFrom k (i + 1) (start + Code.binSize i k)
      else do
        let offset ← Parse.literal width
        if wordSize ≤ start + offset then Parse.fail .corruptElement
        return start + offset
termination_by wordSize - start
decreasing_by
  have := Code.binSize_pos i k
  omega

/-- Reads a number below `size`, short within a window. A window of all numbers leaves none
outside. -/
def readBilevel (size span reference : Nat) : Parse Nat := do
  if size ≤ 1 then return 0
  if ¬Code.WindowFits size span reference then Parse.fail (.invalidSymbol reference size)
  let inside ← Code.bit
  if !inside ∧ span = size then Parse.fail .corruptElement
  Code.readWindowTail size span reference inside

def read : Number → Parse Nat
  | literal width => Parse.literal width
  | gamma => Code.readGamma
  | uniform size => Code.readUniform size
  | subexp k => readSubexpFrom k 0 0
  | subexpBelow size k => Code.readSubexpBelow size k
  | subexpAround size k reference => Code.readSubexpAround size k reference
  | bilevel size span reference => readBilevel size span reference

def maxWidth : Nat := 32

/-- Refuses a literal that is too wide, or whose value is. -/
def checkLiteral (width value : Nat) : Except CodingError Unit :=
  if maxWidth < width ∨ 2 ^ width ≤ value then
    .error (.invalidSymbol value (min (2 ^ width) (wordSize - 1)))
  else .ok ()

/-- Refuses a window that is empty or larger than the whole. -/
def checkWindow (size span : Nat) : Except CodingError Unit :=
  if span = 0 ∨ size < span then .error (.invalidSymbol span (size + 1)) else .ok ()

/-- Refuses a value that has no code, and parameters that make none. -/
def check : Number → (value : Nat) → Except CodingError Unit
  | literal width, value => checkLiteral width value
  | gamma, _ | uniform _, _ | subexp _, _ => .ok ()
  | subexpBelow size _, value => checkSymbol value size
  | subexpAround size _ reference, value => do
      checkSymbol reference size
      checkSymbol value size
  | bilevel size span reference, value => do
      checkSymbol reference size
      checkSymbol value size
      checkWindow size span

/-- Refuses parameters that make no code; those of a window are left to the reader itself. -/
def checkRead : Number → Except CodingError Unit
  | literal width => checkSymbol width (maxWidth + 1)
  | subexpAround size _ reference => checkSymbol reference size
  | gamma | uniform _ | subexp _ | subexpBelow .. | bilevel .. => .ok ()

end Number

end TileCoder
