import TileCoder.Element.Restoration
import TileCoder.Proofs.Element.Digits

/-!
# Restoration filters

Each number of a filter is coded from the one that is remembered in its place. Both are in the range
of the place (`RestorationMemory.InRange`), so that the number is read back; and then it is the one
that is remembered, so that all stays in range.
-/

namespace TileCoder

namespace RestorationMemory

variable {memory : RestorationMemory} {field : Field} {value : Int}

theorem get_set_of_ne (memory : RestorationMemory) {field other : Field} (value : Int)
    (different : field ≠ other) : (memory.set field value).get other = memory.get other := by
  rcases field with (_ | _) | (_ | _) | (_ | _) | _ | _ <;>
    rcases other with (_ | _) | (_ | _) | (_ | _) | _ | _ <;> first | rfl | contradiction

theorem InRange.set (inRange : memory.InRange) (contains : field.range.Contains value) :
    (memory.set field value).InRange := by
  intro other
  by_cases same : field = other
  · subst same
    rw [get_set_self]
    exact contains
  · rw [get_set_of_ne _ _ same]
    exact inRange other

end RestorationMemory

namespace RestorationFilter

open RestorationMemory (Field)

variable {memory : RestorationMemory} {field : Field} {value : Int}

/-! ## Single numbers -/

/-- The range of a number is one that a signed code can have. -/
theorem range_narrow (field : Field) : field.range.high - field.range.low ≤ 2 ^ 31 := by
  rcases field with _ | _ | _ | _ | _ <;> exact of_decide_eq_true rfl

theorem follows_save {plane : Plane} (inRange : memory.InRange) :
    (do Parse.save plane memory; return memory : Parse RestorationMemory).Follows
      [.remember plane memory] memory :=
  .remember inRange (.done memory)

theorem follows_readField (plane : Plane) (inRange : memory.InRange)
    (contains : field.range.Contains value) :
    (readField plane memory field).Follows (writeField plane memory field value).items
      (memory.set field value) := by
  have number := Parse.follows_signedSubexp field.range.k (range_narrow field)
    (inRange field).1 (inRange field).2 contains.1 contains.2
  exact number.bind (follows_save (inRange.set contains))

theorem restores_writeField (plane : Plane) (inRange : memory.InRange)
    (contains : field.range.Contains value) :
    Restores (writeField plane memory field value) (readField plane memory field)
      (memory.set field value) :=
  fun _ _ => follows_readField plane inRange contains

theorem restores_keepField (plane : Plane) (inRange : memory.InRange)
    (contains : field.range.Contains value) :
    Restores (keepField plane memory field value) (implyField plane memory field value)
      (memory.set field value) :=
  fun _ _ => follows_save (inRange.set contains)

/-! ## Taps -/

/-- What is remembered after the taps of some places. -/
def withTaps (vertical horizontal : WienerTaps) (memory : RestorationMemory) (fields : List Field) :
    RestorationMemory :=
  fields.foldl (fun memory field => memory.set field (tap vertical horizontal field)) memory

theorem restores_writeTaps (plane : Plane) {vertical horizontal : WienerTaps} {fields : List Field}
    (inRange : memory.InRange)
    (contains : ∀ field ∈ fields, field.range.Contains (tap vertical horizontal field)) :
    Restores (writeTaps plane vertical horizontal memory fields) (readTaps plane memory fields)
      (withTaps vertical horizontal memory fields) := by
  induction fields generalizing memory with
  | nil => exact restores_pure () memory
  | cons field rest ih =>
      obtain ⟨here, later⟩ := List.forall_mem_cons.mp contains
      rw [writeTaps, readTaps]
      apply (restores_writeField plane inRange here).bind
      rintro _ ⟨⟩
      exact ih (inRange.set here) later

theorem contains_tap {plane : Plane} {vertical horizontal : WienerTaps}
    (vertical_fit : TapsFit plane vertical) (horizontal_fit : TapsFit plane horizontal) :
    ∀ field ∈ tapFields plane, field.range.Contains (tap vertical horizontal field) := by
  obtain ⟨-, vertical_outer, vertical_middle, vertical_inner⟩ := vertical_fit
  obtain ⟨-, horizontal_outer, horizontal_middle, horizontal_inner⟩ := horizontal_fit
  intro field member
  rcases field with (_ | _) | (_ | _) | (_ | _) | _ | _
  case firstWeight | secondWeight => cases plane <;> simp [tapFields] at member
  all_goals assumption

/-- The taps that a plane has are remembered, and it has no others. -/
theorem planeTaps_withTaps {plane : Plane} {vertical horizontal : WienerTaps}
    (vertical_fit : TapsFit plane vertical) (horizontal_fit : TapsFit plane horizontal)
    (memory : RestorationMemory) :
    let remembered := withTaps vertical horizontal memory (tapFields plane)
    planeTaps plane remembered.vertical = vertical ∧
      planeTaps plane remembered.horizontal = horizontal := by
  cases plane with
  | luma => exact ⟨rfl, rfl⟩
  | blue | red =>
      have vertical_outer : vertical.outer = 0 := by simpa using vertical_fit.1
      have horizontal_outer : horizontal.outer = 0 := by simpa using horizontal_fit.1
      cases vertical
      cases horizontal
      subst vertical_outer horizontal_outer
      exact ⟨rfl, rfl⟩

/-! ## Weights -/

/-- A weight is read back if it is coded or is the one that is implied. -/
theorem restores_weight (plane : Plane) (field : Field) {coded : Bool} {implied : Int}
    (inRange : memory.InRange) (contains : field.range.Contains value)
    (known : coded = true ∨ value = implied)
    {next : RestorationMemory → Plan Unit} {follow : RestorationMemory → Parse RestorationFilter}
    {result : RestorationFilter}
    (rest : Restores (next (memory.set field value)) (follow (memory.set field value)) result) :
    Restores ((if coded then writeField plane else keepField plane) memory field value >>= next)
      (if coded then readField plane memory field >>= follow
        else implyField plane memory field implied >>= follow) result := by
  cases coded with
  | true =>
      rw [if_pos rfl, if_pos rfl]
      apply (restores_writeField plane inRange contains).bind
      rintro _ ⟨⟩
      exact rest
  | false =>
      obtain rfl := known.resolve_left Bool.false_ne_true
      rw [if_neg Bool.false_ne_true, if_neg Bool.false_ne_true]
      apply (restores_keepField plane inRange contains).bind
      rintro _ ⟨⟩
      exact rest

theorem restores_writeSelfGuided (plane : Plane) {set : Nat} {first second : Int}
    (inRange : memory.InRange) (fit : WeightsFit set first second) :
    Restores
      (do
        Plan.literal setDigits set
        let put (coded : Bool) := if coded then writeField plane else keepField plane
        let memory ← put (passes set).1 memory .firstWeight first
        let _ ← put (passes set).2 memory .secondWeight second)
      (readSelfGuided plane memory) (selfGuided set first second) := by
  obtain ⟨few, first_contains, second_contains, first_known, second_known⟩ := fit
  unfold readSelfGuided
  apply (restores_literal (by unfold setDigits; omega)).bind
  intro _ _
  have still : (memory.set .firstWeight first).InRange := inRange.set first_contains
  apply restores_weight plane .firstWeight inRange first_contains first_known
  apply restores_weight plane .secondWeight still second_contains second_known
  exact restores_pure () _

/-! ## Filters -/

theorem restores_writeKind {choice : RestorationChoice} {plane : Plane} {filter : RestorationFilter}
    (open_choice : choice ≠ .reserved) (codable : IsCodable choice plane filter) :
    Restores (writeKind choice filter) (readKind choice) filter.kindSymbol := by
  cases choice with
  | none =>
      have absent : filter = none := by
        cases filter with
        | none => rfl
        | wiener | selfGuided => simp [IsCodable] at codable
      rw [absent]
      exact restores_pure () 0
  | switchable =>
      have inside : filter.kindSymbol < 3 := by cases filter <;> exact of_decide_eq_true rfl
      exact restores_symbol inside
  | wiener =>
      apply (restores_flag _ _).ending
      cases filter with
      | none | wiener => rfl
      | selfGuided => simp [IsCodable] at codable
  | selfGuided =>
      apply (restores_flag _ _).ending
      cases filter with
      | none | selfGuided => rfl
      | wiener => simp [IsCodable] at codable
  | reserved => contradiction

/-- A filter is read back from what a plane remembers, unless the choice is reserved. -/
theorem restores_write {site : Site} (inRange : site.memory.InRange)
    (open_choice : site.choice ≠ .reserved) (filter : RestorationFilter) :
    Restores (write site filter) (read site) filter := by
  unfold write read
  apply Restores.given
  intro codable
  apply (restores_writeKind open_choice codable).bind
  intro _ _
  cases filter with
  | none => exact restores_pure () RestorationFilter.none
  | wiener vertical horizontal =>
      obtain ⟨-, vertical_fit, horizontal_fit⟩ := codable
      have contains := contains_tap vertical_fit horizontal_fit
      apply (restores_writeTaps site.plane inRange contains).ending
      have taps := planeTaps_withTaps vertical_fit horizontal_fit site.memory
      rw [taps.1, taps.2]
  | selfGuided set first second => exact restores_writeSelfGuided site.plane inRange codable.2

/-! ## What is accepted -/

theorem accepted_writeKind (choice : RestorationChoice) (filter : RestorationFilter) :
    (writeKind choice filter).result = .ok () := by
  cases choice <;> rfl

theorem accepted_writeTaps (plane : Plane) (vertical horizontal : WienerTaps)
    (memory : RestorationMemory) (fields : List Field) :
    (writeTaps plane vertical horizontal memory fields).result = .ok () := by
  induction fields generalizing memory with
  | nil => rfl
  | cons field rest ih =>
      have written : (writeField plane memory field (tap vertical horizontal field)).result =
          .ok (memory.set field (tap vertical horizontal field)) := rfl
      rw [writeTaps, Emit.bind_of_ok written]
      exact ih _

/-- A unit accepts the filters that it may have. -/
theorem accepted_iff {site : Site} {filter : RestorationFilter} :
    (write site filter).result = .ok () ↔ IsCodable site.choice site.plane filter := by
  unfold write
  by_cases codable : IsCodable site.choice site.plane filter
  · rw [if_neg (not_not_intro codable), Emit.bind_of_ok (accepted_writeKind site.choice filter)]
    refine iff_of_true ?_ codable
    cases filter with
    | none => rfl
    | wiener vertical horizontal => exact accepted_writeTaps ..
    | selfGuided set first second =>
        dsimp only
        cases (passes set).1 <;> cases (passes set).2 <;> rfl
  · rw [if_pos codable]
    exact iff_of_false nofun codable

end RestorationFilter

/-- A strength of one byte is read back if it fits its digits. -/
theorem restores_writeStrength {digits value : Nat} (fits : value < 2 ^ digits)
    (byte : value < 256) : Restores (writeStrength digits value) (readStrength digits) value := by
  unfold writeStrength readStrength
  apply (restores_literal fits).ending
  rw [Nat.mod_eq_of_lt byte]

end TileCoder
