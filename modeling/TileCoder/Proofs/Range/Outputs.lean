import TileCoder.Range.Writer

/-!
# What all outputs have in common

A payload, a recording and a count of bits keep different things, but a token takes all of them on
by the same number of bits and leaves the same range, and no fewer bits pending than a fresh coder
has; and what they kept at some moment can be cut back to, however much was coded since
(`LawfulOutput`). The bits never become fewer (`Writer.bits_le_foldl_put`), writers that were level
stay level when they are handed the same tokens (`Writer.Level.foldl_put`), and a writer can go back to
where it was (`Writer.Extends.rollback_eq`).
-/

namespace TileCoder.Range

open scoped Plain

/-- What every output does with tokens and marks. -/
class LawfulOutput (σ : Type) [Output σ] : Prop where
  bits_empty : Output.bits (Output.empty : σ) = 0
  range_put (writer : Writer σ) (token : Token) :
    (writer.put token).range =
      (token.part writer.range).size * 2 ^ headroom (token.part writer.range).size
  /-- The bits that have left the coder, with those that are pending. -/
  bits_put (writer : Writer σ) (token : Token) :
    (Output.bits (writer.put token).out : Int) + (writer.put token).count =
      Output.bits writer.out + writer.count + headroom (token.part writer.range).size
  /-- No fewer bits are pending than in a fresh coder. -/
  count_put (writer : Writer σ) (token : Token) (pending : -9 ≤ writer.count) :
    -9 ≤ (writer.put token).count
  cut_mark (out : σ) : Output.cut out (Output.mark out) = out
  /-- What could be cut back to still can be. -/
  cut_put (writer : Writer σ) (token : Token) (earlier : σ)
    (kept : Output.cut writer.out (Output.mark earlier) = earlier) :
    Output.cut (writer.put token).out (Output.mark earlier) = earlier

/-- What an array begins with, it begins with when it has grown. -/
theorem take_push_of_take {α : Type} {entries earlier : Array α}
    (kept : entries.take earlier.size = earlier) (entry : α) :
    (entries.push entry).take earlier.size = earlier := by
  have short : earlier.size ≤ entries.size := by
    have size := congrArg Array.size kept
    rw [Array.take_eq_extract, Array.size_extract] at size
    omega
  apply Array.toList_inj.mp
  have kept := congrArg Array.toList kept
  simp only [Array.take_eq_extract, Array.toList_extract, List.extract_eq_take_drop, List.drop_zero,
    Nat.sub_zero, Array.toList_push] at kept ⊢
  rw [List.take_append_of_le_length (by simpa using short)]
  exact kept

instance : LawfulOutput Payload where
  bits_empty := rfl
  range_put writer token := by
    show (Payload.put writer token).range = _
    unfold Payload.put
    dsimp only
    split
    · rfl
    · split <;> rfl
  bits_put writer token := by
    show ((Payload.put writer token).out.pending.size * 8 : Nat) +
      (Payload.put writer token).count = ((writer.out.pending.size * 8 : Nat) : Int) + _ + _
    unfold Payload.put
    dsimp only
    split
    · dsimp only
      omega
    · split
      · simp only [Array.size_push]
        omega
      · simp only [Array.size_push]
        omega
  count_put writer token pending := by
    show -9 ≤ (Payload.put writer token).count
    unfold Payload.put
    dsimp only
    split
    · dsimp only
      omega
    · split <;> dsimp only <;> omega
  cut_mark out := by
    show (⟨out.pending.take out.pending.size, out.low⟩ : Payload) = out
    simp
  cut_put writer token earlier kept := by
    have pending : writer.out.pending.take earlier.pending.size = earlier.pending :=
      congrArg Payload.pending kept
    show (⟨(Payload.put writer token).out.pending.take earlier.pending.size, earlier.low⟩ :
      Payload) = earlier
    congr 1
    -- entries are only ever pushed
    unfold Payload.put
    dsimp only
    split
    · exact pending
    · split
      · exact take_push_of_take pending _
      · exact take_push_of_take (take_push_of_take pending _) _

instance : LawfulOutput Recording where
  bits_empty := rfl
  range_put _ _ := rfl
  bits_put writer token := by
    show (((writer.out.bytes + _) * 8 : Nat) : Int) + (_ - 8 * _) =
      ((writer.out.bytes * 8 : Nat) : Int) + _ + _
    omega
  count_put writer token pending := by
    show -9 ≤ writer.count + headroom (token.part writer.range).size -
      8 * (bytesOut (writer.count + headroom (token.part writer.range).size) : Int)
    unfold bytesOut
    split
    · omega
    · split <;> omega
  cut_mark out := by
    show (⟨out.tokens.take out.tokens.size, out.bytes⟩ : Recording) = out
    simp
  cut_put writer token earlier kept := by
    have tokens : writer.out.tokens.take earlier.tokens.size = earlier.tokens :=
      congrArg Recording.tokens kept
    show (⟨(writer.out.tokens.push token).take earlier.tokens.size, earlier.bytes⟩ : Recording) =
      earlier
    rw [take_push_of_take tokens]

instance : LawfulOutput BitCount where
  bits_empty := rfl
  range_put _ _ := rfl
  bits_put writer token := by
    show ((writer.out.bits + _ : Nat) : Int) + writer.count = (writer.out.bits : Int) + _ + _
    omega
  count_put _ _ pending := pending
  cut_mark _ := rfl
  cut_put _ _ _ _ := rfl

namespace Writer

variable {σ τ : Type} [Output σ] [Output τ]

/-- Two writers have the same range and have coded as many bits, whatever they keep of them. -/
structure Level (writer : Writer σ) (other : Writer τ) : Prop where
  range_eq : other.range = writer.range
  bits_eq : (Output.bits other.out : Int) + other.count = Output.bits writer.out + writer.count

/-- A writer has all that another one kept, so that it can go back to it. -/
def Extends (writer earlier : Writer σ) : Prop :=
  Output.cut writer.out (Output.mark earlier.out) = earlier.out

variable {writer earlier : Writer σ} {other : Writer τ}

theorem Level.position_eq (level : writer.Level other) : other.position = writer.position := by
  have bits : other.bits = writer.bits := by rw [Writer.bits, Writer.bits, level.bits_eq]
  rw [position, position, tellEighths, tellEighths, tell, tell, bits, level.range_eq]

/-- A writer that goes back is just what it was. -/
theorem Extends.rollback_eq (kept : writer.Extends earlier) :
    writer.rollback earlier.checkpoint = earlier := by
  show (⟨earlier.range, earlier.count, _⟩ : Writer σ) = earlier
  rw [checkpoint, kept]

variable [LawfulOutput σ] [LawfulOutput τ]

theorem level_new : (new : Writer σ).Level (new : Writer τ) where
  range_eq := rfl
  bits_eq := by
    show ((Output.bits (Output.empty : τ) : Nat) : Int) + -9 =
      (Output.bits (Output.empty : σ) : Nat) + -9
    rw [LawfulOutput.bits_empty, LawfulOutput.bits_empty]

theorem Level.foldl_put (level : writer.Level other) (tokens : List Token) :
    (tokens.foldl put writer).Level (tokens.foldl put other) := by
  induction tokens generalizing writer other with
  | nil => exact level
  | cons token rest ih =>
      refine ih ⟨?_, ?_⟩
      · rw [LawfulOutput.range_put, LawfulOutput.range_put, level.range_eq]
      · rw [LawfulOutput.bits_put, LawfulOutput.bits_put, level.range_eq, level.bits_eq]

theorem bits_put (writer : Writer σ) (token : Token) :
    (writer.put token).bits = writer.bits + headroom (token.part writer.range).size := by
  have bits := LawfulOutput.bits_put writer token
  unfold Writer.bits
  omega

/-- Whatever is coded, the bits do not become fewer. -/
theorem bits_le_foldl_put (writer : Writer σ) (tokens : List Token) :
    writer.bits ≤ (tokens.foldl put writer).bits := by
  induction tokens generalizing writer with
  | nil => exact Int.le_refl _
  | cons token rest ih =>
      have first := bits_put writer token
      have later := ih (writer.put token)
      rw [List.foldl_cons]
      omega

theorem count_foldl_put (pending : -9 ≤ writer.count) (tokens : List Token) :
    -9 ≤ (tokens.foldl put writer).count := by
  induction tokens generalizing writer with
  | nil => exact pending
  | cons token rest ih => exact ih (LawfulOutput.count_put writer token pending)

theorem extends_self (writer : Writer σ) : writer.Extends writer := LawfulOutput.cut_mark writer.out

theorem Extends.foldl_put (kept : writer.Extends earlier) (tokens : List Token) :
    (tokens.foldl put writer).Extends earlier := by
  induction tokens generalizing writer with
  | nil => exact kept
  | cons token rest ih => exact ih (LawfulOutput.cut_put writer token earlier.out kept)

end Writer

/-! ## Live checkpoints

The checkpoints that a caller may still go back to are a list, the latest first, each related to the
earlier ones. To go back to one drops those that are later, but not the one itself. -/

universe u

variable {α : Type u} {live : List α}

theorem forall_mem_drop {known : α → Prop} (all : ∀ moment ∈ live, known moment) (depth : Nat) :
    ∀ moment ∈ live.drop depth, known moment := by
  intro moment member
  exact all moment (List.mem_of_mem_drop member)

theorem forall_mem_drop_of_pairwise {reaches : α → α → Prop} (nested : live.Pairwise reaches)
    {depth : Nat} {moment : α} (found : live[depth]? = some moment)
    (self : reaches moment moment) : ∀ earlier ∈ live.drop depth, reaches moment earlier := by
  obtain ⟨inside, rfl⟩ := List.getElem?_eq_some_iff.mp found
  have still := nested.drop (i := depth)
  rw [List.drop_eq_getElem_cons inside] at still ⊢
  exact List.forall_mem_cons.mpr ⟨self, (List.pairwise_cons.mp still).1⟩

end TileCoder.Range
