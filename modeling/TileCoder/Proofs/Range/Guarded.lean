import TileCoder.Proofs.Range.Tracking

/-!
# Reading what nobody wrote

A reader of arbitrary bytes keeps its invariant, with whatever row it is told to read: the reader
makes sure of that itself before it moves (`Sound.symbol`). With a row that can be coded with there
is nothing for it to find fault with, so that the only error is to have run out of bytes
(`Sound.symbol_blameless`).
-/

namespace TileCoder.Range.Reader

/-- The walk down a row keeps the point below the upper end. -/
theorem lt_upper_choose (range point : Nat) (values : List Nat) (symbol : Nat) {upper : Nat}
    (below : point < upper) : point < (choose range point values symbol upper).upper := by
  induction values generalizing symbol upper with
  | nil => exact below
  | cons value rest ih =>
      rw [choose]
      split
      · exact below
      · exact ih (symbol + 1) (by omega)

section Deliver

variable {α : Type} (reader : Reader) (value : α)

@[simp] theorem deliver_snd : (reader.deliver value).2 = reader := by
  unfold deliver
  split <;> rfl

theorem deliver_blameless : (reader.deliver value).1 ≠ .error .corruptCdf := by
  unfold deliver
  split <;> simp

end Deliver

section Sound

variable {reader : Reader}

theorem Sound.symbol (sound : reader.Sound) (cdf : Cdf) : (reader.symbol cdf).2.Sound := by
  unfold Reader.symbol
  split
  · exact sound
  · dsimp only
    have below := lt_upper_choose reader.range (reader.window / 65536) cdf 0 sound.point_lt
    split
    · exact sound
    next guarded =>
      rw [deliver_snd]
      exact (enter_spec (sound.entry (by omega) (by omega) below)).1

theorem Sound.symbol_blameless (sound : reader.Sound) {cdf : Cdf} (usable : cdf.Usable) :
    (reader.symbol cdf).1 ≠ .error .corruptCdf := by
  obtain ⟨symbol, inside, reached, below⟩ := exists_between usable.1 sound.point_lt
  rw [symbol_eq sound.scaled usable.roomy inside reached below]
  exact deliver_blameless _ _

theorem Sound.flag (sound : reader.Sound) {mass : Nat} (below : mass < Cdf.top) :
    (reader.flag mass).2.Sound := by
  rw [sound.flag_eq below]
  exact sound.symbol _

theorem Sound.flag_blameless (sound : reader.Sound) {mass : Nat} (below : mass < Cdf.top) :
    (reader.flag mass).1 ≠ .error .corruptCdf := by
  have blameless := sound.symbol_blameless (usable_flagCdf below)
  rw [sound.flag_eq below]
  cases read : (reader.symbol (flagCdf mass)).1 with
  | error error =>
      rw [read] at blameless
      simpa [Except.map] using blameless
  | ok symbol => simp [Except.map]

end Sound

end TileCoder.Range.Reader
