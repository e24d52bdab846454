import TileCoder.Proofs.Frame.Runs

/-!
# Where the tables of a slot come from

`Run.endings` are the frames that a run has ended, in their order. What a slot holds is told by them
alone: the last one that overwrites the slot has left what is in it (`Run.get?_foldl_step`). In
between the frames may begin, be coded, fail and end in any order.

What a frame leaves is told by `Ending.Leaves`: the very tables it started from, or those of its
chosen tile, each row with a zero for its counter. That nothing need be reset in the former case, nor
where a frame starts from a slot, is because a reset changes no tables whose counters are at zero
(`Tables.resetCounts_of_fresh`).
-/

namespace TileCoder

/-! ## Endings -/

/-- A frame that has ended, and the outcome of the tile it ended with. -/
structure Ending where
  frame : Frame
  chosen : TileOutcome

namespace Ending

/-- What the frame has to leave: the tables that it started from, or row by row those of its chosen
tile, but for the counter at the end of the row. -/
def Leaves (ending : Ending) (tables : Tables) : Prop :=
  if ending.frame.params.leavesStart then tables = ending.frame.start
  else ∀ slot, tables.get slot = (ending.chosen.tables.get slot).dropLast ++ [0]

/-- The tables that the frame has left. -/
def saved (ending : Ending) : Tables := ending.frame.endTables ending.chosen

theorem leaves_saved {ending : Ending} (start : ending.frame.start.Fresh)
    (chosen : ending.chosen.tables.Codable) : ending.Leaves ending.saved := by
  unfold Leaves saved Frame.endTables
  split
  · exact Tables.resetCounts_of_fresh start
  · intro slot
    have long := (chosen slot).codable.three_le
    rw [Tables.get_resetCounts, Cdf.resetCount_eq (List.length_pos_iff.mp (by omega))]

/-- Whether the frame has overwritten a slot. -/
def refreshes (ending : Ending) (slot : Nat) : Bool := ending.frame.params.refreshes slot

/-- The last of some frames to overwrite a slot. -/
def last? (slot : Nat) (endings : List Ending) : Option Ending :=
  endings.reverse.find? (·.refreshes slot)

theorem last?_append (slot : Nat) (before after : List Ending) :
    last? slot (before ++ after) = (last? slot after).or (last? slot before) := by
  rw [last?, List.reverse_append, List.find?_append]
  rfl

end Ending

/-- A frame that ends leaves what its ending says, in the slots that it overwrites. -/
theorem Frame.slots_of_finish {frame : Frame} {chosen : TileOutcome} {slots next : ReferenceSlots}
    {tables : Tables} (finished : frame.finish chosen slots = .ok (tables, next)) :
    next = slots.refresh frame.params.refresh (Ending.saved ⟨frame, chosen⟩) := by
  unfold finish at finished
  split at finished
  · cases finished
  · cases finished
    rfl

namespace Run

/-- The frame that an event ends, if it does end one. -/
def ending? (run : Run) : Event → Option Ending
  | .finish i j =>
      match run.frames[i]?, run.outcomes[j]? with
      | some frame, some chosen =>
          match frame.finish chosen run.slots with
          | .ok _ => some ⟨frame, chosen⟩
          | .error _ => none
      | _, _ => none
  | _ => none

/-- The frames that events end, one after another. -/
def endings (run : Run) : List Event → List Ending
  | [] => []
  | event :: rest => (run.ending? event).toList ++ endings (run.step event) rest

variable {run : Run}

/-- No event but the end of a frame changes a slot. -/
theorem slots_step_of_none {event : Event} (none_ends : run.ending? event = none) :
    (run.step event).slots = run.slots := by
  cases event with
  | begin params =>
      show (run.begin params).slots = run.slots
      unfold Run.begin
      split <;> rfl
  | closeWriter i =>
      show (run.closeWriter i).slots = run.slots
      unfold Run.closeWriter
      split <;> rfl
  | closeReader i =>
      show (run.closeReader i).slots = run.slots
      unfold Run.closeReader
      split <;> rfl
  | finish i j =>
      show (run.finish i j).slots = run.slots
      unfold Run.finish
      simp only [ending?] at none_ends
      split
      next frame chosen frame_found chosen_found =>
        rw [frame_found, chosen_found] at none_ends
        dsimp only at none_ends ⊢
        split
        next finished => rw [finished] at none_ends; cases none_ends
        · rfl
      · rfl
  | _ => rfl

theorem slots_step_of_some {event : Event} {ending : Ending}
    (ends : run.ending? event = some ending) :
    (run.step event).slots =
      run.slots.refresh ending.frame.params.refresh ending.saved := by
  cases event with
  | finish i j =>
      show (run.finish i j).slots = _
      unfold Run.finish
      simp only [ending?] at ends
      split
      next frame chosen frame_found chosen_found =>
        rw [frame_found, chosen_found] at ends
        dsimp only at ends ⊢
        split
        next tables slots finished =>
          rw [finished] at ends
          cases ends
          exact Frame.slots_of_finish finished
        next failed => rw [failed] at ends; cases ends
      next nothing =>
        split at ends
        next frame_found chosen_found => exact absurd chosen_found (nothing _ _ frame_found)
        · cases ends
  | _ => cases ends

/-- After one event a slot holds what a frame has left in it just now, or else what it held. -/
theorem get?_step (event : Event) {slot : Nat} (inRange : slot < slotCount) :
    (run.step event).slots.get? slot =
      ((Ending.last? slot (run.ending? event).toList).map Ending.saved).or
        (run.slots.get? slot) := by
  cases ends : run.ending? event with
  | none => rw [slots_step_of_none ends]; rfl
  | some ending =>
      rw [slots_step_of_some ends, ReferenceSlots.get?_refresh _ _ _ inRange]
      simp only [Ending.last?, Option.toList_some, List.reverse_singleton, List.find?_singleton,
        Ending.refreshes, FrameParams.refreshes]
      split <;> rfl

/-- After a run a slot holds what the last frame to overwrite it has left, or else what it held
before. -/
theorem get?_foldl_step (events : List Event) {slot : Nat}
    (inRange : slot < slotCount) :
    (events.foldl step run).slots.get? slot =
      ((Ending.last? slot (run.endings events)).map Ending.saved).or (run.slots.get? slot) := by
  induction events generalizing run with
  | nil => rfl
  | cons event rest ih =>
      rw [List.foldl_cons, ih, get?_step event inRange, endings,
        Ending.last?_append, Option.map_or, Option.or_assoc]

/-- A frame that ends has started with all counters at zero, and its tile can be coded with. -/
theorem leaves_of_ending? (sound : run.Sound) {event : Event} {ending : Ending}
    (ends : run.ending? event = some ending) : ending.Leaves ending.saved := by
  cases event with
  | finish i j =>
      simp only [ending?] at ends
      split at ends
      next frame chosen frame_found chosen_found =>
        have start := sound.frames frame (List.mem_of_getElem? frame_found)
        have outcome := sound.outcomes chosen (List.mem_of_getElem? chosen_found)
        split at ends
        · cases ends
          exact Ending.leaves_saved start.fresh outcome
        · cases ends
      · cases ends
  | _ => cases ends

theorem leaves_of_mem_endings (sound : run.Sound) {events : List Event} :
    ∀ ending ∈ run.endings events, ending.Leaves ending.saved := by
  induction events generalizing run with
  | nil => exact List.forall_mem_nil _
  | cons event rest ih =>
      exact forall_mem_toList_append (fun _ ends => leaves_of_ending? sound ends)
        (ih (sound.step event))

/-- A frame without a primary reference starts with the trained tables. -/
theorem start_of_begin_noPrimary {slots : ReferenceSlots} {params : FrameParams} {frame : Frame}
    (begun : Frame.begin params slots = .ok frame) (primary : params.primary = FrameParams.noPrimary) :
    frame.start = Tables.initial := by
  obtain ⟨-, -, tables, found, start⟩ := Frame.begin_spec begun
  have unnamed : params.primarySlot? = none := by
    rw [FrameParams.primarySlot?, primary]
    exact Vector.getElem?_eq_none (le_refl 7)
  rw [Frame.startTables, unnamed] at found
  cases found
  rw [start, Tables.resetCounts_of_fresh Tables.fresh_initial]

/-- A frame with a primary reference starts with exactly what the reference's slot holds. -/
theorem start_of_begin (sound : run.Sound) {params : FrameParams} {frame : Frame}
    (begun : Frame.begin params run.slots = .ok frame) (primary : params.primary < 7) :
    run.slots.get? params.slots[params.primary] = some frame.start := by
  obtain ⟨-, -, tables, found, start⟩ := Frame.begin_spec begun
  have named : params.primarySlot? = some params.slots[params.primary] :=
    Vector.getElem?_eq_getElem primary
  rw [Frame.startTables, named] at found
  dsimp only at found
  split at found
  next filled =>
    cases found
    rw [filled, start, Tables.resetCounts_of_fresh (sound.slots _ _ filled).fresh]
  · cases found

/-- **The slots tell the history of a run.** In every run from empty slots on, a slot holds the
tables of the last frame to end that overwrites it, and nothing if there was none: those the frame
started from if it leaves these, and otherwise those of its chosen tile with all counters at zero. A
frame that fails to begin changes nothing at all, and a frame that fails to end no slot. A frame
that begins with a primary reference starts with exactly the tables in that reference's slot, and one
without with the trained tables. -/
theorem slots_after (events : List Event) :
    (∀ slot < slotCount, Option.Rel Ending.Leaves (Ending.last? slot (start.endings events))
        ((after events).slots.get? slot)) ∧
      (∀ params error, Frame.begin params (after events).slots = .error error →
        (after events).step (.begin params) = after events) ∧
      (∀ i j frame chosen error, (after events).frames[i]? = some frame →
        (after events).outcomes[j]? = some chosen →
        frame.finish chosen (after events).slots = .error error →
        ((after events).step (.finish i j)).slots = (after events).slots) ∧
      ∀ params frame, Frame.begin params (after events).slots = .ok frame →
        (∀ primary : params.primary < 7,
          params.slots[params.primary] < slotCount ∧
            (after events).slots.get? params.slots[params.primary] = some frame.start) ∧
        (params.primary = FrameParams.noPrimary → frame.start = Tables.initial) := by
  refine ⟨?_, ?_, ?_, ?_⟩
  · intro slot inRange
    have empty : start.slots.get? slot = none := ReferenceSlots.get?_empty slot
    rw [after, get?_foldl_step events inRange, empty, Option.or_none]
    cases last : Ending.last? slot (start.endings events) with
    | none => exact .none
    | some ending =>
        have member := List.mem_reverse.mp (List.mem_of_find?_eq_some last)
        exact .some (leaves_of_mem_endings sound_start ending member)
  · intro params error failed
    show (after events).begin params = after events
    rw [Run.begin, failed]
  · intro i j frame chosen error frame_found chosen_found failed
    exact slots_step_of_none (by simp only [ending?, frame_found, chosen_found, failed])
  · intro params frame begun
    refine ⟨fun primary => ?_, start_of_begin_noPrimary begun⟩
    obtain ⟨checked, valid, -⟩ := bind_eq_ok.mp begun
    have named : params.primarySlot? = some params.slots[params.primary] :=
      Vector.getElem?_eq_getElem primary
    exact ⟨FrameParams.primarySlot?_lt (FrameParams.check_eq_ok.mp valid) named,
      start_of_begin (sound_after events) begun primary⟩

/-- A frame of one tile, which codes a flag, and overwrites the first slot. -/
def flagFrame (primary : Nat) : List Event :=
  [.begin ⟨primary, .replicate _ 0, 1, false, false, 0⟩, .openWriter 0 0,
    .write 0 (.element ⟨.intraCopy, true⟩), .closeWriter 0, .finish 0 0]

/-- A slot that is filled, and then overwritten by a frame that has started from it. A third frame
starts from what the second has left. -/
theorem slots_after_inherited :
    let first := flagFrame FrameParams.noPrimary
    let history := first ++ flagFrame 0
    let third : FrameParams := { FrameParams.keyFrame with primary := 0 }
    let row := Table.intraCopy.only
    Option.Rel Ending.Leaves (Ending.last? 0 (start.endings first)) ((after first).slots.get? 0) ∧
      ((after first).slots.get? 0).map (·.get row) = some [4145, 0, 0] ∧
      Option.Rel Ending.Leaves (Ending.last? 0 (start.endings history))
        ((after history).slots.get? 0) ∧
      ((after history).slots.get? 0).map (·.get row) = some [5933, 0, 0] ∧
      ∃ frame, Frame.begin third (after history).slots = .ok frame ∧
        (after history).slots.get? 0 = some frame.start := by
  intro first history third row
  let next (tables : Tables) : Tables := (tables.resetCounts.update row 1).resetCounts
  have row_next (tables : Tables) :
      (next tables).get row = ((tables.get row).resetCount.update 1).resetCount := by
    simp [next, Tables.update]
  have filled : (after first).slots.get? 0 = some (next .initial) := rfl
  have overwritten : (after history).slots.get? 0 = some (next (next .initial)) := rfl
  have begun : ∃ frame, Frame.begin third (after history).slots = .ok frame := ⟨_, rfl⟩
  obtain ⟨frame, begun⟩ := begun
  obtain ⟨tells, -, -, begins⟩ := slots_after history
  refine ⟨(slots_after first).1 0 (by decide), ?_, tells 0 (by decide), ?_, frame, begun,
    ((begins third frame begun).1 (by decide)).2⟩
  · rw [filled, Option.map_some, row_next]
    decide +kernel
  · rw [overwritten, Option.map_some, row_next, row_next]
    decide +kernel

end Run

end TileCoder
