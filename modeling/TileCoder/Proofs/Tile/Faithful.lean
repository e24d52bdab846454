import TileCoder.Proofs.Tile.Recoding
import TileCoder.Proofs.Tile.Refusal

/-!
# What elements accept

What an element accepts is written down three times: as the test of the writer, as the steps that
follow it, and as the tree that a reader goes down. An element is `Faithful` about a value if the
three agree: it accepts the value just if some payload is read as it, and from the payload of an
accepted value both sides come to the same tables. Elements are faithful about all that their
callers may write (`Element.faithful_of_sayable`).

In two elements the test is a description of its own. A pair of references is tested against the
sides that the two are from, and the test lets the frame itself pass as a second reference, which no
reader comes to. An index of a candidate is tested against the last index that the length of the
list leaves, which a reader finds flag by flag.
-/

namespace TileCoder

open TileCoder.Range

/-- Where a reader comes to a value, at whatever place of whatever payload, its tree leads to the
value. -/
theorem TileReader.takes_of_run {α : Type} {reader : TileReader} {read : Parse α} {value : α}
    (codable : reader.tables.Codable) (ran : (reader.run read).1 = .ok value) :
    ∃ steps, read.Takes steps value := by
  let writer : TileWriter Payload :=
    { coder := .new
      tables := reader.tables
      log := .empty
      adapts := reader.adapts
      memories := reader.memories }
  have beside : writer.Alongside reader := ⟨rfl, rfl, rfl, codable⟩
  have outcome : reader.run read = (.ok value, (reader.run read).2) := Prod.ext ran rfl
  obtain ⟨steps, takes, -⟩ := beside.run outcome
  exact ⟨steps, takes⟩

namespace Element

variable {α : Type}

/-- The element accepts the value just if some payload is read as it, and the payload of an accepted
value is read as the value and leaves the tables of the writer. -/
structure Faithful (tables : Tables) (adapts : Bool) (element : Element α) (value : α) : Prop where
  accepted_iff :
    let written := (TileWriter.new tables adapts : TileWriter Payload).run (element.write value)
    written.1 = .ok () ↔
      ∃ payload, ((TileReader.new payload tables adapts).run element.read).1 = .ok value
  read_back :
    let written := (TileWriter.new tables adapts : TileWriter Payload).run (element.write value)
    let answer := (TileReader.new written.2.coder.finish tables adapts).run element.read
    written.1 = .ok () → answer.1 = .ok value ∧ answer.2.tables = written.2.tables

/-- **Elements are faithful about what callers may write.** -/
theorem faithful_of_sayable {tables : Tables} (codable : tables.Codable) (adapts : Bool)
    {element : Element α} {value : α} (recodable : element.Recodable)
    (whole : element.readBack value = value)
    (sayable : (element.write value).result = .ok () → element.Sayable value) :
    element.Faithful tables adapts value := by
  have follows (accepted : (element.write value).result = .ok ()) :
      element.read.Follows (element.write value).items value := by
    have back := follows_of_sayable accepted (sayable accepted)
    rwa [whole] at back
  refine ⟨⟨?_, ?_⟩, ?_⟩
  · intro accepted
    exact ⟨_, (TileReader.run_written codable adapts (follows accepted)).1⟩
  · rintro ⟨payload, ran⟩
    obtain ⟨steps, takes⟩ := TileReader.takes_of_run codable ran
    exact (accepted_of_takes recodable takes).1
  · intro written answer accepted
    exact TileReader.run_written codable adapts (follows accepted)

end Element

/-! ## References -/

namespace RefPair

variable {site : Site} {refs : RefPair}

theorem accepted_iff : (write site refs).result = .ok () ↔ IsCodable site refs := by
  by_cases codable : IsCodable site refs
  · exact iff_of_true (certain_of_codable codable).choose_spec codable
  · rw [write_of_not_codable codable]
    exact iff_of_false nofun codable

/-- A pair that a reader comes to is accepted, and its second reference is not the frame itself. -/
theorem accepted_of_run {reader : TileReader} (codable : reader.tables.Codable)
    (ran : (reader.run (read site)).1 = .ok refs) :
    (write site refs).result = .ok () ∧ refs.second ≠ .intra := by
  obtain ⟨steps, takes⟩ := TileReader.takes_of_run codable ran
  obtain ⟨second, codes⟩ := takes_read takes
  rw [codes]
  exact ⟨rfl, second⟩

/-- A pair with the frame itself is written as if it had no second reference. -/
theorem write_intra (site : Site) (first : Reference) :
    write site ⟨first, .intra⟩ = write site ⟨first, .none⟩ := by
  simp [write, IsCodable, isCompound, Reference.isInter]

theorem accepted_intra (site : Site) {first : Reference} (inter : first.isInter = true) :
    (write site ⟨first, .intra⟩).result = .ok () :=
  accepted_iff.mpr ⟨inter, nofun⟩

theorem not_faithful_of_intra {tables : Tables} (codable : tables.Codable) (adapts : Bool)
    (site : Site) {first : Reference} (inter : first.isInter = true) :
    ¬(Element.references site).Faithful tables adapts ⟨first, .intra⟩ := by
  intro faithful
  obtain ⟨payload, ran⟩ := faithful.accepted_iff.mp (accepted_intra site inter)
  have reader_codable : (TileReader.new payload tables adapts).tables.Codable := codable
  exact (accepted_of_run reader_codable ran).2 rfl

/-- **References are accepted just if they can be read, save for the frame itself as a second one.**
A pair that any reader comes to, whatever its neighbours and its tables, is accepted, and its second
reference is not the frame itself. Beside another frame the frame itself is accepted all the same;
the payload is then read as if there were no second reference. -/
theorem faithful_iff_second (tables : Tables) (codable : tables.Codable) (adapts : Bool)
    (site : Site) (refs : RefPair) :
    ((Element.references site).Faithful tables adapts refs ↔
        ¬(refs.first.isInter = true ∧ refs.second = .intra)) ∧
      (∀ (near : Neighbours) (reader : TileReader), reader.tables.Codable →
        (reader.run (read { site with near })).1 = .ok refs →
          (write site refs).result = .ok () ∧ refs.second ≠ .intra) ∧
        (refs.first.isInter = true → refs.second = .intra →
          let written := (TileWriter.new tables adapts : TileWriter Payload).run (write site refs)
          let answer := (TileReader.new written.2.coder.finish tables adapts).run (read site)
          written.1 = .ok () ∧ answer.1 = .ok ⟨refs.first, .none⟩ ∧
            answer.2.tables = written.2.tables) := by
  obtain ⟨first, second⟩ := refs
  refine ⟨⟨?_, ?_⟩, ?_, ?_⟩
  · rintro faithful ⟨inter, rfl⟩
    exact not_faithful_of_intra codable adapts site inter faithful
  · intro open_pair
    refine Element.faithful_of_sayable codable adapts trivial rfl ?_
    intro accepted intra
    exact open_pair ⟨(accepted_iff.mp accepted).1, intra⟩
  · intro near reader rows ran
    obtain ⟨accepted, second_open⟩ := accepted_of_run rows ran
    -- whether a pair can be coded depends on the frame and the block, not on the neighbours
    have may : IsCodable { site with near } ⟨first, second⟩ := accepted_iff.mp accepted
    exact ⟨accepted_iff.mpr may, second_open⟩
  · rintro inter rfl written answer
    have alone : (write site ⟨first, .none⟩).result = .ok () := by
      rw [← write_intra]
      exact accepted_intra site inter
    have follows : (read site).Follows (write site ⟨first, .intra⟩).items ⟨first, .none⟩ := by
      rw [write_intra]
      exact restores_write site nofun () alone
    exact ⟨accepted_intra site inter, TileReader.run_written codable adapts follows⟩

/-- Beside blocks with two references, a pair from both sides and a pair with the frame itself. -/
theorem faithful_iff_second_sides :
    let pair (first second : Reference) : Neighbour :=
      { Neighbour.plain with refs := ⟨first, second⟩ }
    let site : Site :=
      ⟨⟨some (pair .last .backward), some (pair .golden .none)⟩, .b16x16, true⟩
    Tables.initial.Codable ∧
      (Element.references site).Faithful .initial true ⟨.last3, .alternate2⟩ ∧
      let written := (TileWriter.new .initial true : TileWriter Payload).run
        (write site ⟨.golden, .intra⟩)
      let answer := (TileReader.new written.2.coder.finish .initial true).run (read site)
      written.1 = .ok () ∧ answer.1 = .ok ⟨.golden, .none⟩ ∧
        answer.2.tables = written.2.tables := by
  intro pair site
  have codable := Tables.codable_initial
  have faithful := (faithful_iff_second .initial codable true site ⟨.last3, .alternate2⟩).1
  have single := (faithful_iff_second .initial codable true site ⟨.golden, .intra⟩).2.2
  exact ⟨codable, faithful.mpr (by decide), single rfl rfl⟩

/-- A pair of another frame and the frame itself is accepted, and nothing is read as it. -/
theorem not_faithful_intra :
    ¬(Element.references ⟨⟨none, none⟩, .b16x16, true⟩).Faithful .initial true ⟨.last, .intra⟩ :=
  not_faithful_of_intra Tables.codable_initial true _ rfl

end RefPair

/-! ## Candidates -/

namespace Inter

/-- The indices that can be written from the index `i` on: those from what the flags have said so
far up to the last one that the list leaves. -/
theorem accepted_writeFlags_iff (weights : List Nat) (index : Nat) {flags i : Nat}
    (few : flags ≤ 2) :
    (writeFlags weights index flags i).result = .ok () ↔
      min i (max (weights.length - 1) (i + flags - 2)) ≤ index ∧
        index ≤ min (i + flags) (max (weights.length - 1) (i + flags - 2)) := by
  induction flags generalizing i with
  | zero =>
      rw [writeFlags]
      by_cases is_last : index = min i (max (weights.length - 1) (i - 2))
      · rw [if_pos is_last]
        exact iff_of_true rfl (by omega)
      · rw [if_neg is_last]
        exact iff_of_false (by simp) (by omega)
  | succ flags ih =>
      rw [writeFlags]
      by_cases more : i + 1 < weights.length
      · rw [if_pos more, Plan.flag, Plan.symbol, Emit.bind_of_ok rfl]
        by_cases further : i < index
        · rw [if_pos further, ih (by omega)]
          omega
        · rw [if_neg further]
          by_cases here : index = i
          · rw [if_neg (not_not_intro here)]
            exact iff_of_true rfl (by omega)
          · rw [if_pos here]
            exact iff_of_false (by simp) (by omega)
      · rw [if_neg more, ih (by omega)]
        omega

/-- **Indices of candidates are accepted just if they can be read**, in the modes that have one:
these are the indices from the first that the mode may have up to the second one behind it, as far
as the list goes. -/
theorem faithful_candidate (tables : Tables) (codable : tables.Codable) (adapts : Bool)
    (mode : PredictionMode)
    (indexed : mode = .newMv ∨ mode = .newNewMv ∨ mode.hasNearMv = true) (weights : List Nat)
    (index : Nat) :
    (Element.candidate mode weights).Faithful tables adapts index ∧
      ∃ first, firstCandidate? mode = some first ∧
        ((writeCandidate mode weights index).result = .ok () ↔
          first ≤ index ∧ index ≤ min (first + 2) (max first (weights.length - 1))) := by
  obtain ⟨first, found⟩ : ∃ first, firstCandidate? mode = some first := by
    unfold firstCandidate?
    rcases indexed with rfl | rfl | near
    · exact ⟨0, rfl⟩
    · exact ⟨0, rfl⟩
    · rw [if_pos near]
      split <;> exact ⟨_, rfl⟩
  have sayable : (Element.candidate mode weights).Sayable index := by
    show firstCandidate? mode ≠ none
    simp [found]
  refine ⟨Element.faithful_of_sayable codable adapts trivial rfl fun _ => sayable, first, found, ?_⟩
  unfold writeCandidate
  rw [found]
  refine (accepted_writeFlags_iff weights index (Nat.le_refl 2)).trans ?_
  omega

/-- Three candidates leave a mode with a near vector the indices 1 and 2: after the flag that goes
on to the last one there is none. -/
theorem faithful_candidate_near :
    let mode : PredictionMode := .nearNewMv
    let weights := [700, 650, 100]
    Tables.initial.Codable ∧ mode.hasNearMv = true ∧
      (∀ index, (Element.candidate mode weights).Faithful .initial false index) ∧
      ∀ index, (writeCandidate mode weights index).result = .ok () ↔ index = 1 ∨ index = 2 := by
  intro mode weights
  have codable := Tables.codable_initial
  have faithful (index : Nat) :=
    faithful_candidate .initial codable false mode (.inr (.inr rfl)) weights index
  refine ⟨codable, rfl, fun index => (faithful index).1, ?_⟩
  intro index
  obtain ⟨first, found, accepted⟩ := (faithful index).2
  obtain rfl : 1 = first := Option.some.inj found
  exact accepted.trans (by simp only [weights, List.length_cons, List.length_nil]; omega)

end Inter

end TileCoder
