import TileCoder.Header.Frame

/-!
What headers are made of.

An `Item α` is a field with values of type `α`, or the fields of a frame together. `Item.write` and
`Item.read` are the two sides of each.
-/

namespace TileCoder.Header

/-- A part of a header, and what is known before it comes. -/
inductive Item : Type → Type where
  | bit : Item Bool
  | field (width : Nat) : Item Nat
  | littleEndian (bytes : Nat) : Item Nat
  | uniform (size : Nat) : Item Nat
  | subexpBelow (size k : Nat) : Item Nat
  | subexpAround (size k reference : Nat) : Item Nat
  | signedSubexp (size k : Nat) (reference : Int) : Item Int
  | gamma : Item Nat
  | bilevel (size span reference : Nat) : Item Nat
  /-- The fields of a frame with `2 ^ tilesLog` tiles. -/
  | frame (intraOnly : Bool) (tilesLog : Nat) : Item FrameFields

namespace Item

def write {α : Type} : Item α → α → FieldWriter Unit
  | bit, value => .bit value
  | field width, value => .field width value
  | littleEndian bytes, value => .littleEndian bytes value
  | uniform size, value => .uniform size value
  | subexpBelow size k, value => .subexpBelow size k value
  | subexpAround size k reference, value => .subexpAround size k reference value
  | signedSubexp size k reference, value => .signedSubexp size k reference value
  | gamma, value => .gamma value
  | bilevel size span reference, value => .bilevel size span reference value
  | frame intraOnly _, value => value.write intraOnly

def read {α : Type} : Item α → FieldReader α
  | bit => FieldReader.bit
  | field width => FieldReader.field width
  | littleEndian bytes => FieldReader.littleEndian bytes
  | uniform size => Code.readUniform size
  | subexpBelow size k => Code.readSubexpBelow size k
  | subexpAround size k reference => Code.readSubexpAround size k reference
  | signedSubexp size k reference => FieldReader.signedSubexp size k reference
  | gamma => Code.readGamma
  | bilevel size span reference => FieldReader.bilevel size span reference
  | frame intraOnly tilesLog => FrameFields.read intraOnly tilesLog

end Item

end TileCoder.Header
