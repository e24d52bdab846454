import TileCoder.Header.Frame
import TileCoder.Proofs.Header.Fields

/-!
# The header of a frame, written and read

A header says what it carries and leaves the rest to be understood: the slots and the primary
reference of a frame of intra blocks, what a frozen frame leaves, and the layout of a single tile
(`FrameFields.said`). Whatever is written is read back as far as the header says it
(`FrameFields.read_of_write`). A reader checks nothing, yet all that it reads could have been written,
and with the same digits (`FrameFields.write_of_read`).
-/

namespace TileCoder.Header.FrameFields

open scoped Plain

variable {fields : FrameFields} {intraOnly : Bool} {bits rest : List Bool}

/-! ## Slots -/

def slotDigits (slots : List Nat) : List Bool := slots.flatMap (Bits.ofNat refWidth)

theorem slotDigits_push {count : Nat} (slots : Vector Nat count) (slot : Nat) :
    slotDigits (slots.push slot).toList = slotDigits slots.toList ++ Bits.ofNat refWidth slot := by
  rw [Vector.toList_push, slotDigits, List.flatMap_append, List.flatMap_singleton]
  rfl

theorem writeSlots_eq_all {slots : List Nat} (inRange : ∀ slot ∈ slots, slot < slotCount) :
    writeSlots slots = .all (slotDigits slots) := by
  induction slots with
  | nil => rfl
  | cons slot others ih =>
      have ⟨first, others_inRange⟩ := List.forall_mem_cons.mp inRange
      have narrow : refWidth ≤ maxFieldWidth := by decide
      rw [writeSlots, FieldWriter.field_of_lt narrow first, ih others_inRange]
      exact FieldWriter.all_bind_all _ _

theorem carries_slots {count : Nat} {slots : Vector Nat count}
    (inRange : ∀ slot ∈ slots, slot < slotCount) :
    Carries (writeSlots slots.toList) (readSlots count) (slotDigits slots.toList) slots where
  written := writeSlots_eq_all fun slot member => inRange slot (Vector.mem_toList_iff.mp member)
  readBack := by
    induction count with
    | zero =>
        intro rest
        obtain rfl : slots = #v[] := Vector.eq_empty
        rfl
    | succ count ih =>
        intro rest
        obtain ⟨front, last, rfl⟩ : ∃ front last, slots = Vector.push front last :=
          Vector.exists_push
        have ⟨last_inRange, front_inRange⟩ := Vector.forall_mem_push.mp inRange
        have last_carried := carries_field refWidth (by decide) last_inRange
        rw [slotDigits_push, List.append_assoc]
        exact (FieldReader.bind_of_ok (ih front_inRange _) _).trans
          ((last_carried.map front.push).readBack rest)

theorem spells_slots (count : Nat) :
    (readSlots count).Spells (fun slots => ∀ slot ∈ slots, slot < slotCount)
      fun slots => slotDigits slots.toList := by
  induction count with
  | zero =>
      intro bits slots rest here
      cases here
      exact ⟨nofun, rfl⟩
  | succ count ih =>
      intro bits slots rest here
      obtain ⟨front, middle, front_inRange, rfl, more⟩ := ih.of_bind here
      obtain ⟨last, after, last_inRange, rfl, done⟩ :=
        (FieldReader.spells_field refWidth).of_bind more
      cases done
      dsimp only
      rw [slotDigits_push, List.append_assoc]
      exact ⟨Vector.forall_mem_push.mpr ⟨last_inRange, front_inRange⟩, rfl⟩

/-! ## The layout -/

def layoutDigits (tilesLog chosenTile sizeBytes : Nat) : List Bool :=
  if tilesLog = 0 then [] else Bits.ofNat tilesLog chosenTile ++ Bits.ofNat 2 (sizeBytes - 1)

/-- What a header says of the chosen tile and of the size fields. -/
def saidLayout (fields : FrameFields) : Nat × Nat :=
  if fields.layout.tilesLog = 0 then (0, TileLayout.maxSizeBytes)
  else (fields.params.chosenTile, fields.layout.sizeBytes)

theorem carries_layout (codable : fields.IsCodable intraOnly)
    (few : fields.layout.tilesLog < maxFieldWidth) :
    Carries fields.writeLayout (readLayout fields.layout.tilesLog)
      (layoutDigits fields.layout.tilesLog fields.params.chosenTile fields.layout.sizeBytes)
      fields.saidLayout := by
  unfold writeLayout readLayout layoutDigits saidLayout
  dsimp only
  by_cases single : fields.layout.tilesLog = 0
  · rw [if_neg (by omega), if_pos single, if_pos single, if_pos single]
    exact carries_pure _
  · obtain ⟨chosen, bytes_pos, bytes_le⟩ := codable.2.2 (Nat.pos_of_ne_zero single)
    have word : fields.params.chosenTile < wordSize :=
      Nat.lt_trans chosen (Nat.pow_lt_pow_right (by decide) few)
    have bytes_fit : fields.layout.sizeBytes - 1 < 2 ^ 2 := by
      unfold TileLayout.maxSizeBytes at bytes_le
      omega
    have bytes_carried := (carries_field 2 (by decide) bytes_fit).map fun code =>
      (fields.params.chosenTile, code + 1)
    rw [Nat.sub_add_cancel bytes_pos] at bytes_carried
    rw [if_pos (Nat.pos_of_ne_zero single), if_neg single, if_neg single, if_neg single,
      Nat.mod_eq_of_lt word]
    exact (carries_field _ (Nat.le_of_lt few) chosen).bind bytes_carried

theorem spells_layout (tilesLog : Nat) :
    (readLayout tilesLog).Spells
      (fun (chosenTile, sizeBytes) =>
        chosenTile < 2 ^ tilesLog ∧ TileLayout.IsFieldSize sizeBytes)
      fun (chosenTile, sizeBytes) => layoutDigits tilesLog chosenTile sizeBytes := by
  intro bits layout rest here
  unfold readLayout at here
  split at here
  next single =>
    cases here
    dsimp only
    rw [layoutDigits, if_pos single]
    exact ⟨⟨Nat.two_pow_pos tilesLog, by decide⟩, rfl⟩
  next several =>
    obtain ⟨chosenTile, middle, chosen_lt, rfl, more⟩ :=
      (FieldReader.spells_field tilesLog).of_bind here
    obtain ⟨code, after, code_lt, rfl, done⟩ := (FieldReader.spells_field 2).of_bind more
    cases done
    dsimp only
    rw [layoutDigits, if_neg several, Nat.add_sub_cancel, List.append_assoc]
    exact ⟨⟨chosen_lt, Nat.le_add_left 1 code, code_lt⟩, rfl⟩

/-! ## The whole header -/

/-- What a header says of the fields of a frame: what it leaves out is understood. -/
def said (fields : FrameFields) (intraOnly : Bool) : FrameFields where
  params :=
    { fields.params with
      slots := if intraOnly then FrameParams.keyFrame.slots else fields.params.slots
      chosenTile := fields.saidLayout.1 }
  layout := { fields.layout with sizeBytes := fields.saidLayout.2 }

def digits (fields : FrameFields) (intraOnly : Bool) : List Bool :=
  [fields.params.frozen] ++
    ((if intraOnly then [] else Bits.ofNat refWidth fields.params.primary) ++
      (Bits.ofNat slotCount fields.params.refresh ++
        ((if intraOnly then [] else slotDigits fields.params.slots.toList) ++
          ((if fields.params.frozen then [] else [fields.params.leavesStart]) ++
            layoutDigits fields.layout.tilesLog fields.params.chosenTile fields.layout.sizeBytes))))

theorem codable_of_write (accepted : (fields.write intraOnly).result = .ok ()) :
    fields.IsCodable intraOnly := by
  refine Decidable.byContradiction fun refused => ?_
  unfold write at accepted
  rw [if_pos refused] at accepted
  cases accepted

theorem carries_frame (codable : fields.IsCodable intraOnly)
    (few : fields.layout.tilesLog < maxFieldWidth) :
    Carries (fields.write intraOnly) (read intraOnly fields.layout.tilesLog)
      (fields.digits intraOnly) (fields.said intraOnly) := by
  have ⟨⟨primary_le, refresh_lt, slots_lt, frozen_leaves⟩, intra_primary, _⟩ := codable
  -- of what is understood, the writer has checked these two; the others need not be what is read
  have primary_eq : (if intraOnly then FrameParams.noPrimary else fields.params.primary) =
      fields.params.primary := ite_eq_right_iff.mpr fun intra => (intra_primary intra).symm
  have leaves_eq : (if fields.params.frozen then true else fields.params.leavesStart) =
      fields.params.leavesStart := ite_eq_right_iff.mpr fun frozen => (frozen_leaves frozen).symm
  unfold write read digits
  dsimp only
  rw [if_neg (not_not_intro codable)]
  apply (carries_bit fields.params.frozen).bind
  refine Carries.unless (fun _ => carries_field _ (by decide) (Nat.lt_succ_of_le primary_le)) ?_
  rw [primary_eq]
  apply (carries_field _ (by decide) refresh_lt).bind
  refine Carries.unless (fun _ => carries_slots slots_lt) ?_
  refine Carries.unless (fun _ => carries_bit fields.params.leavesStart) ?_
  rw [leaves_eq]
  exact (carries_layout codable few).map _

/-- All that a reader reads could have been written, and with the same digits. -/
theorem spells_frame (intraOnly : Bool) (tilesLog : Nat) :
    (read intraOnly tilesLog).Spells
      (fun fields => fields.IsCodable intraOnly ∧ fields.layout.tilesLog = tilesLog ∧
        fields.params.chosenTile < fields.layout.tiles ∧
          TileLayout.IsFieldSize fields.layout.sizeBytes)
      fun fields => fields.digits intraOnly := by
  intro bits fields rest here
  obtain ⟨frozen, _, -, rfl, from_primary⟩ := FieldReader.spells_bit.of_bind here
  obtain ⟨primary, _, primary_said, rfl, from_refresh⟩ :=
    (FieldReader.spells_field refWidth).of_unless from_primary
  obtain ⟨refresh, _, refresh_lt, rfl, from_slots⟩ :=
    (FieldReader.spells_field slotCount).of_bind from_refresh
  obtain ⟨slots, _, slots_said, rfl, from_leaves⟩ :=
    (spells_slots Reference.interCount).of_unless from_slots
  obtain ⟨leavesStart, _, leaves_said, rfl, from_layout⟩ :=
    FieldReader.spells_bit.of_unless from_leaves
  obtain ⟨⟨chosenTile, sizeBytes⟩, _, ⟨chosen_lt, bytes⟩, rfl, done⟩ :=
    (spells_layout tilesLog).of_bind from_layout
  cases done
  -- the widths keep what was read in range, and what is understood is in range
  have primary_le : primary ≤ FrameParams.noPrimary := by
    split at primary_said
    next => exact Nat.le_of_eq primary_said
    next => exact Nat.le_of_lt_succ primary_said
  have intra_primary (intra : intraOnly = true) : primary = FrameParams.noPrimary := by
    rwa [if_pos intra] at primary_said
  have slots_lt : ∀ slot ∈ slots, slot < slotCount := by
    split at slots_said
    next => rw [slots_said]; decide
    next => exact slots_said
  have frozen_leaves (isFrozen : frozen = true) : leavesStart = true := by
    rwa [if_pos isFrozen] at leaves_said
  refine ⟨⟨⟨⟨primary_le, refresh_lt, slots_lt, frozen_leaves⟩, intra_primary, ?_⟩, rfl, chosen_lt,
    bytes⟩, ?_⟩
  · exact fun _ => ⟨chosen_lt, bytes⟩
  · simp only [digits, List.append_assoc]

theorem said_eq_iff : fields.said intraOnly = fields ↔
    (intraOnly = true → fields.params.slots = FrameParams.keyFrame.slots) ∧
      (fields.layout.tilesLog = 0 →
        fields.params.chosenTile = 0 ∧ fields.layout.sizeBytes = TileLayout.maxSizeBytes) := by
  obtain ⟨⟨primary, slots, refresh, frozen, leavesStart, chosenTile⟩, ⟨tilesLog, sizeBytes⟩⟩ := fields
  unfold said saidLayout
  simp only [FrameFields.mk.injEq, FrameParams.mk.injEq, TileLayout.mk.injEq, true_and,
    ite_eq_right_iff, eq_comm (a := slots)]
  split
  next single => simp only [single, forall_const, and_assoc, eq_comm]
  next several => simp only [several, false_imp_iff, and_true]

/-- **What a header says is read back.** Where the fields of a frame are written, a reader reads what
the header says of them, from the digits written and from no more. That is all of them if the frame
leaves to be understood only what is understood: the slots of a frame of intra blocks, and the layout
of a single tile. -/
theorem read_of_write (few : fields.layout.tilesLog < maxFieldWidth)
    (accepted : (fields.write intraOnly).result = .ok ()) :
    (∀ rest, read intraOnly fields.layout.tilesLog ((fields.write intraOnly).items ++ rest) =
        .ok (fields.said intraOnly, rest)) ∧
      (fields.said intraOnly = fields ↔
        (intraOnly = true → fields.params.slots = FrameParams.keyFrame.slots) ∧
          (fields.layout.tilesLog = 0 →
            fields.params.chosenTile = 0 ∧
              fields.layout.sizeBytes = TileLayout.maxSizeBytes)) := by
  have carried := carries_frame (codable_of_write accepted) few
  refine ⟨fun rest => ?_, said_eq_iff⟩
  rw [carried.written]
  exact carried.readBack rest

/-- A frame of eight tiles that starts from the tables of an earlier frame. -/
def interFrame : FrameFields where
  params :=
    { primary := 3
      slots := #v[7, 6, 5, 4, 3, 2, 1]
      refresh := 66
      frozen := false
      leavesStart := false
      chosenTile := 5 }
  layout := { tilesLog := 3, sizeBytes := 2 }

theorem read_interFrame :
    interFrame.layout.tilesLog < maxFieldWidth ∧ (interFrame.write false).result = .ok () ∧
      ∀ rest, read false 3 ((interFrame.write false).items ++ rest) = .ok (interFrame, rest) := by
  have few : interFrame.layout.tilesLog < maxFieldWidth := by decide
  have accepted : (interFrame.write false).result = .ok () := rfl
  obtain ⟨back, same⟩ := read_of_write few accepted
  rw [same.mpr ⟨nofun, nofun⟩] at back
  exact ⟨few, accepted, back⟩

/-- A frame of intra blocks in a single tile, with fields that its header does not carry. -/
def unsaidFrame : FrameFields where
  params := { FrameParams.keyFrame with slots := .replicate Reference.interCount 7, chosenTile := 5 }
  layout := { tilesLog := 0, sizeBytes := 2 }

/-- The header is written, but the slots, the chosen tile and the size fields are not read back. -/
theorem unsaidFrame_lost :
    unsaidFrame.layout.tilesLog < maxFieldWidth ∧ (unsaidFrame.write true).result = .ok () ∧
      ∃ back, read true 0 (unsaidFrame.write true).items = .ok (back, []) ∧
        back.params.slots ≠ unsaidFrame.params.slots ∧
        back.params.chosenTile ≠ unsaidFrame.params.chosenTile ∧
        back.layout.sizeBytes ≠ unsaidFrame.layout.sizeBytes :=
  ⟨by decide, rfl, ⟨FrameParams.keyFrame, ⟨0, 4⟩⟩, rfl, by decide, by decide, by decide⟩

/-- **What is read could have been written.** All that a reader reads passes the checks of a writer,
which writes it with the digits that it was read from. -/
theorem write_of_read {tilesLog : Nat} (few : tilesLog < maxFieldWidth)
    (here : read intraOnly tilesLog bits = .ok (fields, rest)) :
    fields.layout.tilesLog = tilesLog ∧ fields.params.check = .ok () ∧
      fields.params.chosenTile < fields.layout.tiles ∧
      TileLayout.IsFieldSize fields.layout.sizeBytes ∧
      ∃ front, bits = front ++ rest ∧ fields.write intraOnly = .all front := by
  obtain ⟨⟨codable, rfl, chosen, bytes⟩, bits_eq⟩ := spells_frame intraOnly tilesLog here
  exact ⟨rfl, FrameParams.check_eq_ok.mpr codable.1, chosen, bytes, _, bits_eq,
    (carries_frame codable few).written⟩

/-- A frozen frame of intra blocks takes nine digits, which a writer writes again. -/
theorem write_frozenIntra :
    0 < maxFieldWidth ∧
      ∃ fields, read true 0 (List.replicate 9 true ++ [false]) = .ok (fields, [false]) ∧
        fields.params.frozen = true ∧ fields.params.check = .ok () ∧
        fields.write true = .all (List.replicate 9 true) := by
  have few : 0 < maxFieldWidth := by decide
  have here : read true 0 (List.replicate 9 true ++ [false]) =
      .ok (⟨{ FrameParams.keyFrame with frozen := true, leavesStart := true }, ⟨0, 4⟩⟩, [false]) :=
    rfl
  obtain ⟨-, valid, -, -, front, bits_eq, written⟩ := write_of_read few here
  obtain rfl := List.append_cancel_right bits_eq
  exact ⟨few, _, here, rfl, valid, written⟩

end TileCoder.Header.FrameFields
