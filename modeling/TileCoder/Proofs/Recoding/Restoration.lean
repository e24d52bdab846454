import TileCoder.Proofs.Element.Restoration
import TileCoder.Proofs.Recoding.Numbers

/-!
# Recoding restoration filters

The numbers of a filter are read around the remembered ones and remembered in turn. As long as all of
those are in range, so is each that is read; the taps of a filter are those that are remembered in the
end, since no place is read twice (`recodes_taps`).
-/

namespace TileCoder.RestorationFilter

open RestorationMemory (Field)
open Parse (takes_pure takes_readSymbol)
open Plan (codes_pure codes_symbol codes_flag)

variable {memory after : RestorationMemory} {field : Field} {steps : List Step}

/-! ## Single numbers -/

/-- A number is read in its range, and remembered. -/
theorem recodes_field (plane : Plane) (inRange : memory.InRange)
    (takes : (readField plane memory field).Takes steps after) :
    ∃ value, field.range.Contains value ∧ after = memory.set field value ∧
      (writeField plane memory field value).Codes after steps := by
  obtain ⟨value, front, back, rfl, takes_value, takes_save⟩ := Parse.Takes.of_bind takes
  obtain ⟨above, below, rfl⟩ := Parse.takes_signedSubexp (range_narrow field) (inRange field).1
    (inRange field).2 takes_value
  obtain ⟨rest, rfl, takes_last⟩ := Parse.Takes.of_save takes_save
  obtain ⟨rfl, rfl⟩ := takes_pure.mp takes_last
  exact ⟨value, ⟨above, below⟩, rfl, rfl⟩

/-- A weight that is not coded is the implied one, and remembered as well. -/
theorem recodes_weight {plane : Plane} {coded : Bool} {implied : Int} {result : RestorationFilter}
    {follow : RestorationMemory → Parse RestorationFilter} (inRange : memory.InRange)
    (implied_contains : field.range.Contains implied)
    (takes : (if coded then readField plane memory field >>= follow
      else implyField plane memory field implied >>= follow).Takes steps result) :
    ∃ value front back, steps = front ++ back ∧ field.range.Contains value ∧
      (coded = true ∨ value = implied) ∧
      Plan.Codes ((if coded then writeField plane else keepField plane) memory field value)
        (memory.set field value) front ∧
      (follow (memory.set field value)).Takes back result := by
  cases coded with
  | true =>
      obtain ⟨after, front, back, rfl, here, there⟩ := Parse.Takes.of_bind takes
      obtain ⟨value, contains, rfl, codes⟩ := recodes_field plane inRange here
      exact ⟨value, front, back, rfl, contains, .inl rfl, codes, there⟩
  | false =>
      obtain ⟨after, front, back, rfl, here, there⟩ := Parse.Takes.of_bind takes
      obtain ⟨rest, rfl, takes_last⟩ := Parse.Takes.of_save here
      obtain ⟨rfl, rfl⟩ := takes_pure.mp takes_last
      exact ⟨implied, _, back, rfl, implied_contains, .inr rfl, rfl, there⟩

/-! ## Taps -/

/-- Reading taps leaves all other places, and writing those that are remembered in the end takes the
same steps. -/
theorem recodes_taps (plane : Plane) {fields : List Field} (distinct : fields.Nodup)
    (inRange : memory.InRange) (takes : (readTaps plane memory fields).Takes steps after) :
    after.InRange ∧ (∀ field ∉ fields, after.get field = memory.get field) ∧
      ∀ vertical horizontal, (∀ field ∈ fields, tap vertical horizontal field = after.get field) →
        (writeTaps plane vertical horizontal memory fields).Codes () steps := by
  induction fields generalizing memory steps with
  | nil =>
      obtain ⟨rfl, rfl⟩ := takes_pure.mp takes
      exact ⟨inRange, fun _ _ => rfl, fun _ _ _ => codes_pure ()⟩
  | cons field rest ih =>
      obtain ⟨once, distinct_rest⟩ := List.nodup_cons.mp distinct
      obtain ⟨next, front, back, rfl, takes_field, takes_rest⟩ := Parse.Takes.of_bind takes
      obtain ⟨value, contains, rfl, codes⟩ := recodes_field plane inRange takes_field
      obtain ⟨after_inRange, others, rest_codes⟩ :=
        ih distinct_rest (inRange.set contains) takes_rest
      refine ⟨after_inRange, ?_, ?_⟩
      · intro other absent
        obtain ⟨different, later⟩ := not_or.mp (List.mem_cons.not.mp absent)
        rw [others other later, RestorationMemory.get_set_of_ne _ _ (Ne.symm different)]
      · intro vertical horizontal remembered
        obtain ⟨here, later⟩ := List.forall_mem_cons.mp remembered
        rw [others field once, RestorationMemory.get_set_self] at here
        rw [writeTaps, here]
        exact codes.bind (rest_codes vertical horizontal later)

/-- The taps that a plane has are the remembered ones. -/
theorem tap_planeTaps (plane : Plane) (memory : RestorationMemory) :
    ∀ field ∈ tapFields plane,
      tap (planeTaps plane memory.vertical) (planeTaps plane memory.horizontal) field =
        memory.get field := by
  intro field member
  cases plane with
  | luma =>
      rcases field with _ | _ | _ | _ | _
      case firstWeight | secondWeight => simp [tapFields] at member
      all_goals rfl
  | blue | red =>
      rcases field with _ | (_ | _) | (_ | _) | _ | _
      case outer | firstWeight | secondWeight => simp [tapFields] at member
      all_goals rfl

theorem tapsFit_planeTaps (plane : Plane) (inRange : memory.InRange) (horizontal : Bool) :
    TapsFit plane
      (planeTaps plane (if horizontal then memory.horizontal else memory.vertical)) := by
  have outer := inRange (.outer horizontal)
  have middle := inRange (.middle horizontal)
  have inner := inRange (.inner horizontal)
  cases plane with
  | luma => exact ⟨.inl rfl, outer, middle, inner⟩
  | blue | red =>
      have none_outer : CodedRange.outerTap.Contains 0 := by decide
      exact ⟨.inr rfl, none_outer, middle, inner⟩

theorem recodes_wiener {plane : Plane} {filter : RestorationFilter} (inRange : memory.InRange)
    (takes : (readTaps plane memory (tapFields plane) >>= fun memory =>
      pure (wiener (planeTaps plane memory.vertical)
        (planeTaps plane memory.horizontal))).Takes steps filter) :
    ∃ vertical horizontal, filter = wiener vertical horizontal ∧ TapsFit plane vertical ∧
      TapsFit plane horizontal ∧
      (writeTaps plane vertical horizontal memory (tapFields plane)).Codes () steps := by
  have distinct : (tapFields plane).Nodup := by cases plane <;> decide
  obtain ⟨after, rfl, takes_taps⟩ := Parse.Takes.of_map takes
  obtain ⟨after_inRange, -, codes⟩ := recodes_taps plane distinct inRange takes_taps
  exact ⟨_, _, rfl, tapsFit_planeTaps plane after_inRange false,
    tapsFit_planeTaps plane after_inRange true, codes _ _ (tap_planeTaps plane after)⟩

/-! ## Weights -/

theorem contains_impliedSecondWeight (first : Int) :
    (Field.range .secondWeight).Contains (impliedSecondWeight first) := by
  show -32 ≤ max (-32) (min (128 - first) 95) ∧ max (-32) (min (128 - first) 95) < 96
  omega

theorem recodes_selfGuided {plane : Plane} {filter : RestorationFilter} (inRange : memory.InRange)
    (takes : (readSelfGuided plane memory).Takes steps filter) :
    ∃ set first second, filter = selfGuided set first second ∧ WeightsFit set first second ∧
      Plan.Codes
        (do
          Plan.literal setDigits set
          let put (coded : Bool) := if coded then writeField plane else keepField plane
          let memory ← put (passes set).1 memory .firstWeight first
          let _ ← put (passes set).2 memory .secondWeight second) () steps := by
  obtain ⟨set, rest, few, rfl, takes_first⟩ := Parse.Takes.of_literal takes
  have no_first : (Field.range .firstWeight).Contains 0 := by decide
  obtain ⟨first, front, later, rfl, first_contains, first_known, first_codes, takes_second⟩ :=
    recodes_weight inRange no_first takes_first
  obtain ⟨second, back, last, rfl, second_contains, second_known, second_codes, takes_last⟩ :=
    recodes_weight (inRange.set first_contains) (contains_impliedSecondWeight _) takes_second
  obtain ⟨rfl, rfl⟩ := takes_pure.mp takes_last
  refine ⟨set, first, second, rfl, ⟨few, first_contains, second_contains, first_known,
    second_known⟩, ?_⟩
  exact (Plan.codes_literal setDigits set).bind
    (first_codes.bind (second_codes.bind (codes_pure ())))

/-! ## Filters -/

/-- Where a unit may have filters of one kind only, a flag says whether it has one. -/
theorem ne_none_of_kindSymbol {filter : RestorationFilter} {kind : Nat} {applies : Bool}
    (some_kind : kind ≠ 0) (same : filter.kindSymbol = if applies then kind else 0) :
    decide (filter ≠ none) = applies := by
  cases applies with
  | true =>
      cases filter with
      | none => exact absurd same.symm some_kind
      | wiener | selfGuided => rfl
  | false =>
      cases filter with
      | none => rfl
      | wiener | selfGuided => cases same

/-- A kind is only read where a unit may have it. -/
theorem recodes_kind {choice : RestorationChoice} {kind : Nat}
    (takes : (readKind choice).Takes steps kind) :
    kind < 3 ∧ (kind = 1 → choice = .wiener ∨ choice = .switchable) ∧
      (kind = 2 → choice = .selfGuided ∨ choice = .switchable) ∧
      ∀ filter : RestorationFilter, filter.kindSymbol = kind →
        (writeKind choice filter).Codes () steps := by
  cases choice with
  | none =>
      obtain ⟨rfl, rfl⟩ := takes_pure.mp takes
      exact ⟨by decide, nofun, nofun, fun _ _ => codes_pure ()⟩
  | switchable =>
      obtain ⟨rfl, inside⟩ := takes_readSymbol.mp takes
      refine ⟨inside, fun _ => .inr rfl, fun _ => .inr rfl, ?_⟩
      rintro filter rfl
      exact codes_symbol _ _
  | wiener =>
      obtain ⟨applies, rfl, takes_flag⟩ := Parse.Takes.of_map takes
      rw [Parse.takes_readFlag rfl takes_flag]
      refine ⟨by cases applies <;> decide, fun _ => .inl rfl, by cases applies <;> decide, ?_⟩
      intro filter same
      rw [writeKind, ne_none_of_kindSymbol Nat.one_ne_zero same]
      exact codes_flag _ _
  | selfGuided =>
      obtain ⟨applies, rfl, takes_flag⟩ := Parse.Takes.of_map takes
      rw [Parse.takes_readFlag rfl takes_flag]
      refine ⟨by cases applies <;> decide, by cases applies <;> decide, fun _ => .inl rfl, ?_⟩
      intro filter same
      rw [writeKind, ne_none_of_kindSymbol two_ne_zero same]
      exact codes_flag _ _
  | reserved => exact absurd takes Parse.not_takes_fail

/-- A filter that is read from what a plane remembers can be written from it. -/
theorem recodes {site : Site} (inRange : site.memory.InRange) :
    Recodes (read site) (write site) := by
  intro steps filter takes
  obtain ⟨kind, front, back, rfl, takes_kind, takes_filter⟩ := Parse.Takes.of_bind takes
  obtain ⟨kind_lt, may_wiener, may_selfGuided, kind_codes⟩ := recodes_kind takes_kind
  have kinds : kind = 0 ∨ kind = 1 ∨ kind = 2 := by omega
  unfold write
  rcases kinds with rfl | rfl | rfl
  · obtain ⟨rfl, rfl⟩ := takes_pure.mp takes_filter
    exact .given trivial ((kind_codes none rfl).bind (codes_pure ()))
  · obtain ⟨vertical, horizontal, rfl, vertical_fit, horizontal_fit, codes⟩ :=
      recodes_wiener inRange takes_filter
    exact .given ⟨may_wiener rfl, vertical_fit, horizontal_fit⟩
      ((kind_codes (wiener vertical horizontal) rfl).bind codes)
  · obtain ⟨set, first, second, rfl, fit, codes⟩ := recodes_selfGuided inRange takes_filter
    exact .given ⟨may_selfGuided rfl, fit⟩ ((kind_codes (selfGuided set first second) rfl).bind codes)

end TileCoder.RestorationFilter
