import Mathlib.Algebra.BigOperators.Intervals
import Mathlib.Data.List.GetD
import Mathlib.Tactic
import TileCoder.Bits

/-!
# Numbers in base 256

A list of entries stands for a number, the first entry weighing most. Entries may be larger than a
byte, as they are where a carry is still to be resolved.
-/

namespace TileCoder

/-- The number that entries of base 256 stand for. -/
def bigEndian : List Nat → Nat
  | [] => 0
  | entry :: rest => entry * 256 ^ rest.length + bigEndian rest

/-- The number that a payload stands for. -/
def payloadValue (payload : List UInt8) : Nat := bigEndian (payload.map UInt8.toNat)

@[simp] theorem bigEndian_nil : bigEndian [] = 0 := rfl

@[simp] theorem bigEndian_cons (entry : Nat) (rest : List Nat) :
    bigEndian (entry :: rest) = entry * 256 ^ rest.length + bigEndian rest := rfl

theorem bigEndian_append (front back : List Nat) :
    bigEndian (front ++ back) = bigEndian front * 256 ^ back.length + bigEndian back := by
  induction front with
  | nil => simp
  | cons entry front ih =>
      rw [List.cons_append, bigEndian_cons, bigEndian_cons, ih, List.length_append, Nat.pow_add]
      ring

/-- An entry has eight binary digits. -/
theorem pow_entries_mul (entries bits : Nat) :
    256 ^ entries * 2 ^ bits = 2 ^ (8 * entries + bits) := by
  rw [show 256 = 2 ^ 8 by rfl, ← Nat.pow_mul, ← Nat.pow_add]

/-- Each entry weighs as much as its distance from the end says. -/
theorem bigEndian_eq_sum (entries : List Nat) :
    bigEndian entries =
      ∑ i ∈ Finset.range entries.length,
        entries.getD i 0 * 256 ^ (entries.length - 1 - i) := by
  induction entries with
  | nil => rfl
  | cons entry rest ih =>
      rw [bigEndian_cons, ih, List.length_cons, Finset.sum_range_succ', Nat.add_comm]
      congr 1
      refine Finset.sum_congr rfl fun i _ => ?_
      rw [List.getD_cons_succ, show rest.length + 1 - 1 - (i + 1) = rest.length - 1 - i by omega]

theorem payloadValue_cons (byte : UInt8) (rest : List UInt8) :
    payloadValue (byte :: rest) = byte.toNat * 256 ^ rest.length + payloadValue rest := by
  simp [payloadValue]

theorem payloadValue_append (front back : List UInt8) :
    payloadValue (front ++ back) = payloadValue front * 256 ^ back.length + payloadValue back := by
  simp [payloadValue, bigEndian_append]

theorem payloadValue_replicate_zero (zeros : Nat) : payloadValue (List.replicate zeros 0) = 0 := by
  induction zeros with
  | zero => rfl
  | succ zeros ih => simp [List.replicate_succ, payloadValue_cons, ih]

theorem payloadValue_lt (payload : List UInt8) :
    payloadValue payload < 256 ^ payload.length := by
  induction payload with
  | nil => decide
  | cons byte rest ih =>
      have small : byte.toNat + 1 ≤ 256 := byte.toNat_lt
      have := Nat.mul_le_mul_right (256 ^ rest.length) small
      rw [payloadValue_cons, List.length_cons, Nat.pow_succ]
      linarith

end TileCoder
