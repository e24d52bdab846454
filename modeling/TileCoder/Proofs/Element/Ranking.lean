import Mathlib.Algebra.BigOperators.Group.List.Basic
import Mathlib.Data.List.GetD
import Mathlib.Tactic
import TileCoder.Element.Palette

/-!
# Ranks of colours

The ranking of a palette's colours is a selection sort that stops after as many rounds as there are
neighbours. A round brings the first of the best entries to the front (`selectBest_succ`), so the
entries stay the same ones (`selectBest_perm`) and those not yet chosen stay in order. Only
neighbours speak for colours, so no more entries than that have a score at all, and those behind
them are in their place already: the whole ranking is sorted, by score and then by colour
(`selectBest_sorted`).

What the context is made of, the hash of the best scores, comes from two numbers: all that the
neighbours say, and what they say for one colour at most (`hash_ranking`). Both only depend on which
neighbours there are and which of them agree.
-/

namespace TileCoder.Palette

/-! ## One round -/

/-- An entry comes before another: it scores more, or as much and is the lower colour. -/
def Score.Ahead (a b : Score) : Prop := b.score < a.score ∨ a.score = b.score ∧ a.color < b.color

/-- The first of the best entries, with those in front of it and those behind. -/
structure FirstBest (front : List Score) (best : Score) (back : List Score) : Prop where
  front_lt : ∀ entry ∈ front, entry.score < best.score
  back_le : ∀ entry ∈ back, entry.score ≤ best.score

/-- A search that goes on from the best of the entries so far ends at the best of all. -/
theorem bestPlace_spec {front back : List Score} {best : Score} (first : FirstBest front best back)
    (rest : List Score) :
    ∃ front' best' back', front ++ best :: back ++ rest = front' ++ best' :: back' ∧
      FirstBest front' best' back' ∧
      bestPlace front.length best.score (front ++ best :: back).length rest = front'.length := by
  induction rest generalizing front best back with
  | nil => exact ⟨front, best, back, List.append_nil _, first, rfl⟩
  | cons entry rest ih =>
      unfold bestPlace
      split
      next better =>
        have all_lt : ∀ seen ∈ front ++ best :: back, seen.score < entry.score := by
          intro seen member
          rcases List.mem_append.mp member with ahead | behind
          · exact (first.front_lt seen ahead).trans better
          · rcases List.mem_cons.mp behind with rfl | later
            · exact better
            · exact (first.back_le seen later).trans_lt better
        have last : FirstBest (front ++ best :: back) entry [] := ⟨all_lt, List.forall_mem_nil _⟩
        simpa [Nat.add_assoc] using ih last
      next worse =>
        have back_le : ∀ seen ∈ back ++ [entry], seen.score ≤ best.score :=
          List.forall_mem_append.mpr
            ⟨first.back_le, List.forall_mem_singleton.mpr (Nat.le_of_not_lt worse)⟩
        simpa [Nat.add_assoc] using ih ⟨first.front_lt, back_le⟩

/-- **One round** brings the first of the best entries to the front and leaves the others in order. -/
theorem selectBest_succ (rounds : Nat) {entries : List Score} (some_entries : entries ≠ []) :
    ∃ front best back, entries = front ++ best :: back ∧ FirstBest front best back ∧
      selectBest (rounds + 1) entries = best :: selectBest rounds (front ++ back) := by
  obtain ⟨first, rest, rfl⟩ := List.exists_cons_of_ne_nil some_entries
  have alone : FirstBest [] first [] := ⟨List.forall_mem_nil _, List.forall_mem_nil _⟩
  obtain ⟨front, best, back, split, isBest, place⟩ := bestPlace_spec alone rest
  refine ⟨front, best, back, split, isBest, ?_⟩
  have found : bestPlace 0 first.score 1 rest = front.length := place
  have whole : first :: rest = front ++ best :: back := split
  rw [selectBest, found, whole, List.eraseIdx_append_of_length_le (Nat.le_refl _), Nat.sub_self]
  simp

/-! ## All rounds -/

theorem selectBest_perm (rounds : Nat) (entries : List Score) :
    (selectBest rounds entries).Perm entries := by
  induction rounds generalizing entries with
  | zero => exact .refl _
  | succ rounds ih =>
      by_cases none_left : entries = []
      · subst none_left
        exact .refl _
      · obtain ⟨front, best, back, rfl, -, step⟩ := selectBest_succ rounds none_left
        rw [step]
        exact ((ih _).cons best).trans List.perm_middle.symm

/-- How many entries have a score. -/
def scored (entries : List Score) : Nat := entries.countP (0 < ·.score)

/-- A round leaves one scored entry less to be placed. -/
theorem FirstBest.scored_le {front back : List Score} {best : Score} {rounds : Nat}
    (first : FirstBest front best back) (few : scored (front ++ best :: back) ≤ rounds + 1) :
    scored (front ++ back) ≤ rounds := by
  by_cases speaks : 0 < best.score
  · simp only [scored, List.countP_append, List.countP_cons, decide_eq_true speaks] at few ⊢
    simp only [if_true] at few
    omega
  · have silent : scored (front ++ back) = 0 := by
      refine List.countP_eq_zero.mpr fun entry member => ?_
      rcases List.mem_append.mp member with ahead | behind
      · exact absurd (first.front_lt entry ahead) (by omega)
      · have := first.back_le entry behind
        simp only [decide_eq_true_eq]
        omega
    omega

/-- With as many rounds as there are entries with a score, the selection is a stable sort. -/
theorem selectBest_sorted {rounds : Nat} {entries : List Score}
    (order : entries.Pairwise fun a b => a.color < b.color) (few : scored entries ≤ rounds) :
    (selectBest rounds entries).Pairwise Score.Ahead := by
  induction rounds generalizing entries with
  | zero =>
      have silent := List.countP_eq_zero.mp (Nat.le_zero.mp few)
      refine order.imp_of_mem fun {a b} a_mem b_mem lower => .inr ⟨?_, lower⟩
      have a_silent := silent a a_mem
      have b_silent := silent b b_mem
      simp only [decide_eq_true_eq] at a_silent b_silent
      omega
  | succ rounds ih =>
      by_cases none_left : entries = []
      · subst none_left
        exact .nil
      · obtain ⟨front, best, back, rfl, first, step⟩ := selectBest_succ rounds none_left
        rw [List.pairwise_append, List.pairwise_cons] at order
        obtain ⟨front_order, ⟨best_lower, back_order⟩, across⟩ := order
        have others : (front ++ back).Pairwise fun a b => a.color < b.color :=
          List.pairwise_append.mpr ⟨front_order, back_order,
            fun a a_mem b b_mem => across a a_mem b (List.mem_cons_of_mem _ b_mem)⟩
        rw [step, List.pairwise_cons]
        refine ⟨?_, ih others (first.scored_le few)⟩
        intro entry member
        rcases List.mem_append.mp ((selectBest_perm _ _).mem_iff.mp member) with ahead | behind
        · exact .inl (first.front_lt entry ahead)
        · rcases Nat.lt_or_eq_of_le (first.back_le entry behind) with less | same
          · exact .inl less
          · exact .inr ⟨same.symm, best_lower entry behind⟩

/-- Nothing with a score is left behind. -/
theorem score_of_mem_drop {rounds : Nat} {entries : List Score} (few : scored entries ≤ rounds) :
    ∀ entry ∈ (selectBest rounds entries).drop rounds, entry.score = 0 := by
  induction rounds generalizing entries with
  | zero =>
      intro entry member
      have silent := List.countP_eq_zero.mp (Nat.le_zero.mp few) entry member
      simp only [decide_eq_true_eq] at silent
      omega
  | succ rounds ih =>
      by_cases none_left : entries = []
      · subst none_left
        exact List.forall_mem_nil _
      · obtain ⟨front, best, back, rfl, first, step⟩ := selectBest_succ rounds none_left
        rw [step, List.drop_succ_cons]
        exact ih (first.scored_le few)

/-! ## What the neighbours say -/

theorem rankContext_lt (ranking : List Score) : rankContext ranking < 5 := by
  have table : ∀ i < 9, hashContexts.getD i 0 < 5 := by decide
  exact table _ (by omega)

namespace Around

/-- The colours of the neighbours. -/
def colors (around : Around) : List Nat :=
  around.beside.toList ++ around.corner.toList ++ around.above.toList

/-- All that the neighbours say. -/
def total (around : Around) : Nat :=
  (if around.beside.isSome then 2 else 0) + (if around.corner.isSome then 1 else 0) +
    if around.above.isSome then 2 else 0

/-- What they say for one colour at most. -/
def most (around : Around) : Nat := around.colors.toFinset.sup around.score

theorem length_colors_le (around : Around) : around.colors.length ≤ voters := by
  obtain ⟨_ | beside, _ | corner, _ | above⟩ := around <;> simp [colors, voters]

/-- Neighbours only speak for their own colours. -/
theorem mem_colors_of_score_ne {around : Around} {color : Nat} (speaks : around.score color ≠ 0) :
    color ∈ around.colors := by
  contrapose! speaks
  simp only [colors, List.mem_append, Option.mem_toList, not_or] at speaks
  obtain ⟨⟨beside, corner⟩, above⟩ := speaks
  simp [score, vote, beside, corner, above]

/-- The votes of a neighbour for all colours come to its weight. -/
theorem sum_vote (neighbour : Option Nat) (weight count : Nat)
    (inside : ∀ color ∈ neighbour, color < count) :
    ((List.range count).map (vote neighbour weight)).sum =
      if neighbour.isSome then weight else 0 := by
  cases neighbour with
  | none =>
      refine List.sum_eq_zero fun votes member => ?_
      obtain ⟨color, -, rfl⟩ := List.mem_map.mp member
      rfl
  | some color =>
      have once (n : Nat) : ((List.range n).map (vote (some color) weight)).sum =
          if color < n then weight else 0 := by
        induction n with
        | zero => rfl
        | succ n ih =>
            rw [List.range_succ, List.map_append, List.sum_append, ih, List.map_singleton,
              List.sum_singleton, vote]
            grind
      rw [once, if_pos (inside color rfl)]
      rfl

/-- All that the neighbours say is said for one of the colours. -/
theorem sum_score {around : Around} {count : Nat}
    (inside : ∀ color ∈ around.colors, color < count) :
    ((List.range count).map around.score).sum = around.total := by
  have votes : (List.range count).map around.score = (List.range count).map fun color =>
      vote around.beside 2 color + vote around.corner 1 color + vote around.above 2 color := rfl
  have beside := sum_vote around.beside 2 count fun color here =>
    inside color (by simp_all [colors])
  have corner := sum_vote around.corner 1 count fun color here =>
    inside color (by simp_all [colors])
  have above := sum_vote around.above 2 count fun color here =>
    inside color (by simp_all [colors])
  rw [votes, List.sum_map_add, List.sum_map_add, beside, corner, above, total]

end Around

/-! ## The ranking -/

section Ranking

variable (map : Array Nat) (stride row column : Nat)

/-- No more colours have a score than there are neighbours. -/
theorem scored_scores_le (colors : Nat) :
    scored ((scores map stride row column).take colors) ≤ voters := by
  let around := Around.of map stride row column
  let speaking := ((scores map stride row column).take colors).filter (0 < ·.score)
  have distinct : (speaking.map (·.color)).Nodup := by
    have all : ((scores map stride row column).map (·.color)).Nodup := by
      simpa [scores, Function.comp_def] using List.nodup_range
    exact all.sublist ((List.filter_sublist.trans (List.take_sublist _ _)).map _)
  have subset : speaking.map (·.color) ⊆ around.colors := by
    intro color member
    obtain ⟨entry, listed, rfl⟩ := List.mem_map.mp member
    obtain ⟨listed, speaks⟩ := List.mem_filter.mp listed
    obtain ⟨color, -, rfl⟩ := List.mem_map.mp (List.mem_of_mem_take listed)
    exact Around.mem_colors_of_score_ne (by simpa [Nat.pos_iff_ne_zero] using speaks)
  calc scored ((scores map stride row column).take colors)
      = (speaking.map (·.color)).length := by
        rw [List.length_map, scored, List.countP_eq_length_filter]
    _ ≤ around.colors.length := (List.subperm_of_subset distinct subset).length_le
    _ ≤ voters := around.length_colors_le

/-- **The palette's colours are ranked by a stable sort.** -/
theorem selectBest_scores_sorted (colors : Nat) :
    (selectBest voters ((scores map stride row column).take colors)).Pairwise Score.Ahead := by
  refine selectBest_sorted ?_ (scored_scores_le map stride row column colors)
  have order : (scores map stride row column).Pairwise fun a b => a.color < b.color :=
    List.pairwise_map.mpr List.pairwise_lt_range
  exact order.sublist (List.take_sublist _ _)

theorem ranking_perm (colors : Nat) :
    (ranking map stride row column colors).Perm (scores map stride row column) := by
  have selected := (selectBest_perm voters ((scores map stride row column).take colors)).append_right
    ((scores map stride row column).drop colors)
  rwa [List.take_append_drop] at selected

variable {map stride row column} {colors : Nat}

theorem score_of_mem_scores {entry : Score} (member : entry ∈ scores map stride row column) :
    entry.score = (Around.of map stride row column).score entry.color := by
  obtain ⟨color, -, rfl⟩ := List.mem_map.mp member
  rfl

section Inside

variable (inside : ∀ color ∈ (Around.of map stride row column).colors, color < colors)
include inside

/-- Nobody speaks for a colour that the palette does not have. -/
theorem score_of_mem_drop_scores :
    ∀ entry ∈ (scores map stride row column).drop colors, entry.score = 0 := by
  intro entry member
  rw [score_of_mem_scores (List.mem_of_mem_drop member)]
  by_contra speaks
  have color_lt := inside _ (Around.mem_colors_of_score_ne speaks)
  rw [scores, ← List.map_drop, List.mem_map] at member
  obtain ⟨color, behind, rfl⟩ := member
  obtain ⟨i, i_lt, rfl⟩ := List.mem_iff_getElem.mp behind
  simp at color_lt

theorem ranking_sorted :
    (ranking map stride row column colors).Pairwise fun a b => b.score ≤ a.score := by
  have silent := score_of_mem_drop_scores inside
  refine List.pairwise_append.mpr ⟨?selected, ?behind, ?across⟩
  case selected =>
    refine (selectBest_scores_sorted map stride row column colors).imp fun ahead => ?_
    rcases ahead with less | ⟨same, -⟩
    · exact less.le
    · exact same.ge
  case behind =>
    refine List.pairwise_of_forall_mem_list fun a _ b b_mem => ?_
    rw [silent b b_mem]
    exact Nat.zero_le _
  case across =>
    intro a _ b b_mem
    rw [silent b b_mem]
    exact Nat.zero_le _

/-- Behind as many ranks as there are neighbours nothing has a score. -/
theorem score_of_mem_drop_ranking :
    ∀ entry ∈ (ranking map stride row column colors).drop voters, entry.score = 0 := by
  intro entry member
  rw [ranking, List.drop_append] at member
  rcases List.mem_append.mp member with left | behind
  · exact score_of_mem_drop (scored_scores_le map stride row column colors) entry left
  · exact score_of_mem_drop_scores inside entry (List.mem_of_mem_drop behind)

variable (few : colors ≤ maxColors)
include few

/-- The best score is the most that is said for one colour. -/
theorem score_head_ranking {first : Score} {rest : List Score}
    (ranked : ranking map stride row column colors = first :: rest) :
    first.score = (Around.of map stride row column).most := by
  have sorted := ranking_sorted inside
  have same := ranking_perm map stride row column colors
  rw [ranked] at sorted same
  have listed : first ∈ scores map stride row column := same.mem_iff.mp List.mem_cons_self
  apply le_antisymm
  · rw [score_of_mem_scores listed]
    by_cases speaks : (Around.of map stride row column).score first.color = 0
    · rw [speaks]
      exact Nat.zero_le _
    · exact Finset.le_sup (List.mem_toFinset.mpr (Around.mem_colors_of_score_ne speaks))
  · refine Finset.sup_le fun color member => ?_
    have color_lt := inside color (List.mem_toFinset.mp member)
    have entry : (⟨color, (Around.of map stride row column).score color⟩ : Score) ∈ first :: rest :=
      same.mem_iff.mpr (List.mem_map.mpr ⟨color, List.mem_range.mpr (by omega), rfl⟩)
    rcases List.mem_cons.mp entry with here | later
    · exact (congrArg Score.score here).le
    · exact (List.pairwise_cons.mp sorted).1 _ later

/-- **The hash of a ranking** counts all that the neighbours say twice, but what they say for the
best colour once. -/
theorem hash_ranking :
    hash (ranking map stride row column colors) + (Around.of map stride row column).most =
      2 * (Around.of map stride row column).total := by
  have same := ranking_perm map stride row column colors
  have silent := score_of_mem_drop_ranking inside
  have said : ((ranking map stride row column colors).map (·.score)).sum =
      (Around.of map stride row column).total := by
    rw [(same.map _).sum_eq,
      ← Around.sum_score fun color member => (inside color member).trans_le few]
    simp [scores, Function.comp_def]
  have long : voters ≤ (ranking map stride row column colors).length := by
    rw [same.length_eq]
    simp [scores, voters, maxColors]
  match ranked : ranking map stride row column colors, long with
  | first :: second :: third :: rest, _ =>
      rw [ranked] at said silent
      rw [← score_head_ranking inside few ranked, ← said]
      have rest_silent : (rest.map (·.score)).sum = 0 :=
        List.sum_eq_zero fun score member => by
          obtain ⟨entry, listed, rfl⟩ := List.mem_map.mp member
          exact silent entry listed
      simp only [hash, scoreWeights, List.zipWith_cons_cons, List.zipWith_nil_right, List.map_cons,
        List.sum_cons, List.sum_nil, rest_silent]
      omega

end Inside

end Ranking

/-! ## Ranks -/

theorem colors_take_scores (map : Array Nat) (stride row column : Nat) {colors : Nat}
    (few : colors ≤ maxColors) :
    ((scores map stride row column).take colors).map (·.color) = List.range colors := by
  simp [scores, List.take_range, Nat.min_eq_left few, Function.comp_def]

/-- The palette's colours are ranked by the selection. -/
theorem take_order (map : Array Nat) (stride row column : Nat) {colors : Nat}
    (few : colors ≤ maxColors) :
    (colorContext map stride row column colors).2.take colors =
      (selectBest voters ((scores map stride row column).take colors)).map (·.color) := by
  have length : (selectBest voters ((scores map stride row column).take colors)).length = colors := by
    rw [(selectBest_perm _ _).length_eq, ← List.length_map (f := Score.color),
      colors_take_scores _ _ _ _ few, List.length_range]
  unfold colorContext ranking
  dsimp only
  rw [← List.map_take, List.take_append_of_le_length length.ge, List.take_of_length_le length.le]

/-- The palette's colours by rank are all of its colours. -/
theorem colors_perm (map : Array Nat) (stride row column : Nat) {colors : Nat}
    (few : colors ≤ maxColors) :
    ((colorContext map stride row column colors).2.take colors).Perm (List.range colors) := by
  rw [take_order _ _ _ _ few, ← colors_take_scores map stride row column few]
  exact (selectBest_perm _ _).map _

/-- The palette's colours by rank are sorted by what the neighbours say, and then by colour. -/
theorem order_sorted (map : Array Nat) (stride row column : Nat) {colors : Nat}
    (few : colors ≤ maxColors) :
    ((colorContext map stride row column colors).2.take colors).Pairwise fun a b =>
      (Around.of map stride row column).score b < (Around.of map stride row column).score a ∨
        (Around.of map stride row column).score a = (Around.of map stride row column).score b ∧
          a < b := by
  rw [take_order _ _ _ _ few, List.pairwise_map]
  refine (selectBest_scores_sorted map stride row column colors).imp_of_mem ?_
  intro a b a_mem b_mem ahead
  have selected := selectBest_perm voters ((scores map stride row column).take colors)
  rw [← score_of_mem_scores (List.mem_of_mem_take (selected.mem_iff.mp a_mem)),
    ← score_of_mem_scores (List.mem_of_mem_take (selected.mem_iff.mp b_mem))]
  exact ahead

/-- A colour of the palette has a rank, which takes back to the colour. -/
theorem exists_rank (map : Array Nat) (stride row column : Nat) {colors color : Nat}
    (few : colors ≤ maxColors) (inside : color < colors) :
    ∃ rank < colors,
      rankOf ((colorContext map stride row column colors).2.take colors) color = .ok rank ∧
        (colorContext map stride row column colors).2.getD rank 0 = color := by
  have perm := colors_perm map stride row column few
  generalize (colorContext map stride row column colors).2 = order at perm
  have member : color ∈ order.take colors := perm.mem_iff.mpr (List.mem_range.mpr inside)
  have index_lt := List.idxOf_lt_length_iff.mpr member
  refine ⟨(order.take colors).idxOf color, ?_, if_pos member, ?_⟩
  · rwa [perm.length_eq, List.length_range] at index_lt
  · have index_lt_order : (order.take colors).idxOf color < order.length :=
      Nat.lt_of_lt_of_le index_lt (List.length_take_le' _ _)
    have found : (order.take colors)[(order.take colors).idxOf color] = color :=
      List.getElem_idxOf index_lt
    rwa [List.getElem_take, ← List.getD_eq_getElem _ 0 index_lt_order] at found

/-! ## Contexts -/

/-- Around two positions there are the same neighbours, and the same of them agree. -/
structure Around.Alike (a b : Around) : Prop where
  beside : a.beside.isSome = b.beside.isSome
  corner : a.corner.isSome = b.corner.isSome
  above : a.above.isSome = b.above.isSome
  beside_corner : a.beside = a.corner ↔ b.beside = b.corner
  beside_above : a.beside = a.above ↔ b.beside = b.above
  corner_above : a.corner = a.above ↔ b.corner = b.above

theorem Around.Alike.total_eq {a b : Around} (alike : a.Alike b) : a.total = b.total := by
  rw [total, total, alike.beside, alike.corner, alike.above]

/-- What is said for one colour at most, by which neighbours agree. -/
theorem Around.most_eq (around : Around) :
    around.most =
      max (max
        (if around.beside.isSome then
          2 + (if around.beside = around.corner then 1 else 0) +
            if around.beside = around.above then 2 else 0
        else 0)
        (if around.corner.isSome then
          1 + (if around.beside = around.corner then 2 else 0) +
            if around.corner = around.above then 2 else 0
        else 0))
        (if around.above.isSome then
          2 + (if around.beside = around.above then 2 else 0) +
            if around.corner = around.above then 1 else 0
        else 0) := by
  obtain ⟨_ | beside, _ | corner, _ | above⟩ := around <;>
    simp [most, colors, score, vote, eq_comm] <;> grind

theorem Around.Alike.most_eq {a b : Around} (alike : a.Alike b) : a.most = b.most := by
  obtain ⟨beside, corner, above, beside_corner, beside_above, corner_above⟩ := alike
  simp only [Around.most_eq, beside, corner, above, beside_corner, beside_above, corner_above]

/-- The neighbours that a position has are in the map, with colours of the palette. -/
structure Surrounded (map : Array Nat) (stride row column colors : Nat) : Prop where
  beside : 0 < column → ∃ color < colors, map[row * stride + column - 1]? = some color
  corner : 0 < row → 0 < column →
    ∃ color < colors, map[(row - 1) * stride + column - 1]? = some color
  above : 0 < row → ∃ color < colors, map[(row - 1) * stride + column]? = some color

section Surrounded

variable {map : Array Nat} {stride row column colors : Nat}

theorem Surrounded.colors_lt (surrounded : Surrounded map stride row column colors) :
    ∀ color ∈ (Around.of map stride row column).colors, color < colors := by
  obtain ⟨beside, corner, above⟩ := surrounded
  intro color member
  simp only [Around.colors, Around.of, List.mem_append, Option.mem_toList] at member
  grind

/-- All three neighbours are there, or only one of those that speak twice. -/
theorem Surrounded.cases (surrounded : Surrounded map stride row column colors)
    (inner : (row, column) ≠ (0, 0)) :
    (∃ l k u, Around.of map stride row column = ⟨some l, some k, some u⟩) ∨
      (∃ l, Around.of map stride row column = ⟨some l, none, none⟩) ∨
        ∃ u, Around.of map stride row column = ⟨none, none, some u⟩ := by
  unfold Around.of
  rcases Nat.eq_zero_or_pos row with rfl | below <;>
    rcases Nat.eq_zero_or_pos column with rfl | inside
  · exact absurd rfl inner
  · obtain ⟨l, -, beside⟩ := surrounded.beside inside
    exact .inr (.inl ⟨l, by rw [if_pos inside, beside, if_neg (by omega), if_neg (by omega)]⟩)
  · obtain ⟨u, -, above⟩ := surrounded.above below
    exact .inr (.inr ⟨u, by rw [if_neg (by omega), if_neg (by omega), if_pos below, above]⟩)
  · obtain ⟨l, -, beside⟩ := surrounded.beside inside
    obtain ⟨k, -, corner⟩ := surrounded.corner below inside
    obtain ⟨u, -, above⟩ := surrounded.above below
    exact .inl ⟨l, k, u, by
      rw [if_pos inside, beside, if_pos ⟨below, inside⟩, corner, if_pos below, above]⟩

theorem Surrounded.hash_mem (surrounded : Surrounded map stride row column colors)
    (few : colors ≤ maxColors) (inner : (row, column) ≠ (0, 0)) :
    hash (ranking map stride row column colors) ∈ [2, 5, 6, 7, 8] := by
  have said := hash_ranking surrounded.colors_lt few
  rw [Around.most_eq, Around.total] at said
  rcases surrounded.cases inner with ⟨l, k, u, around⟩ | ⟨l, around⟩ | ⟨u, around⟩
  · rw [around] at said
    simp only [Option.isSome_some, if_true, Option.some.injEq] at said
    simp only [List.mem_cons, List.not_mem_nil, or_false]
    split_ifs at said <;> omega
  · rw [around] at said
    simp at said ⊢
    omega
  · rw [around] at said
    simp at said ⊢
    omega

/-- The context is that of any other position with such neighbours. -/
theorem Surrounded.context_eq_of_alike {map' : Array Nat} {stride' row' column' colors' : Nat}
    (here : Surrounded map stride row column colors)
    (there : Surrounded map' stride' row' column' colors') (few : colors ≤ maxColors)
    (few' : colors' ≤ maxColors)
    (alike : (Around.of map stride row column).Alike (Around.of map' stride' row' column')) :
    (colorContext map stride row column colors).1 =
      (colorContext map' stride' row' column' colors').1 := by
  have said := hash_ranking here.colors_lt few
  have said' := hash_ranking there.colors_lt few'
  rw [← alike.total_eq, ← alike.most_eq] at said'
  have same : hash (ranking map stride row column colors) =
      hash (ranking map' stride' row' column' colors') :=
    Nat.add_right_cancel (said.trans said'.symm)
  show rankContext _ = rankContext _
  rw [rankContext, rankContext, same]

end Surrounded

/-- **Colours are ranked by a stable permutation.** The palette's colours by rank are a permutation
of them, by falling score and, where the neighbours say as much, by the colour itself. The hash of
the scores is one of five, and the context is that of any other position with the same neighbours of
which the same agree, whatever their colours and the palette. -/
theorem colors_ranked {map : Array Nat} {stride row column colors : Nat}
    (few : colors ≤ maxColors) (surrounded : Surrounded map stride row column colors)
    (inner : (row, column) ≠ (0, 0)) :
    let around := Around.of map stride row column
    let ranked := colorContext map stride row column colors
    (ranked.2.take colors).Perm (List.range colors) ∧
      (ranked.2.take colors).Pairwise (fun a b =>
        around.score b < around.score a ∨ around.score a = around.score b ∧ a < b) ∧
      hash (ranking map stride row column colors) ∈ [2, 5, 6, 7, 8] ∧
      ranked.1 < 5 ∧
      ∀ map' stride' row' column' colors', colors' ≤ maxColors →
        Surrounded map' stride' row' column' colors' →
          around.Alike (Around.of map' stride' row' column') →
            ranked.1 = (colorContext map' stride' row' column' colors').1 := by
  intro around ranked
  exact ⟨colors_perm map stride row column few, order_sorted map stride row column few,
    surrounded.hash_mem few inner, rankContext_lt _,
    fun map' stride' row' column' colors' few' surrounded' alike =>
      surrounded.context_eq_of_alike surrounded' few few' alike⟩

/-- Two colours, which take fewer rounds than there are; the same neighbours agree in a map of
eight. -/
theorem colors_ranked_two :
    let map := #[0, 1, 1, 0]
    let other := #[0, 6, 4, 0, 0, 0, 4, 0]
    Surrounded map 2 1 1 2 ∧ (1, 1) ≠ (0, 0) ∧ Surrounded other 5 1 2 8 ∧
      (Around.of map 2 1 1).Alike (Around.of other 5 1 2) ∧
      ((colorContext map 2 1 1 2).2.take 2).Pairwise (fun a b =>
        (Around.of map 2 1 1).score b < (Around.of map 2 1 1).score a ∨
          (Around.of map 2 1 1).score a = (Around.of map 2 1 1).score b ∧ a < b) ∧
      (colorContext map 2 1 1 2).1 = (colorContext other 5 1 2 8).1 := by
  intro map other
  have surrounded : Surrounded map 2 1 1 2 :=
    ⟨fun _ => ⟨1, by decide, rfl⟩, fun _ _ => ⟨0, by decide, rfl⟩, fun _ => ⟨1, by decide, rfl⟩⟩
  have surrounded' : Surrounded other 5 1 2 8 :=
    ⟨fun _ => ⟨4, by decide, rfl⟩, fun _ _ => ⟨6, by decide, rfl⟩, fun _ => ⟨4, by decide, rfl⟩⟩
  have alike : (Around.of map 2 1 1).Alike (Around.of other 5 1 2) :=
    ⟨rfl, rfl, rfl, by decide, by decide, by decide⟩
  obtain ⟨-, sorted, -, -, same⟩ := colors_ranked (by decide) surrounded (by decide)
  exact ⟨surrounded, by decide, surrounded', alike, sorted,
    same other 5 1 2 8 (by decide) surrounded' alike⟩

end TileCoder.Palette
