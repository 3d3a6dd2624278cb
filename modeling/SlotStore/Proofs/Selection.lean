import Mathlib.Algebra.Ring.Int.Defs
import Mathlib.Algebra.Ring.Nat
import SlotStore.SlotTable

/-!
Which slot an allocation gets: best fit answers the free slot with the least capacity that has
enough room, and the first of several; an index that is handed out is the lowest unused one behind
the sentinel, or a new one.
-/

namespace SlotStore

theorem SlotState.isUnused_iff {state : SlotState} : state.isUnused = true ↔ state = .unused := by
  cases state <;> simp [isUnused]

theorem SlotState.region?_eq_none_iff {state : SlotState} :
    state.region? = none ↔ state = .unused := by
  cases state <;> simp [region?]

namespace SlotTable

theorem filled_of_sentinel {table : SlotTable} (sentinel : table[0]? = some .unused) :
    table ≠ [] := by
  rintro rfl
  simp at sentinel

theorem pairwise_zipIdx (table : SlotTable) :
    table.zipIdx.Pairwise fun left right => left.2 < right.2 := by
  rw [List.pairwise_iff_getElem]
  intro left right leftBound rightBound before
  simpa using before

theorem mem_indicesOf_iff {table : SlotTable} {test : Nat → SlotState → Bool} {index : Nat} :
    index ∈ table.indicesOf test ↔
      ∃ state, table[index]? = some state ∧ test index state = true := by
  unfold indicesOf
  rw [List.mem_filterMap]
  constructor
  · rintro ⟨⟨state, position⟩, member, kept⟩
    have found := List.mk_mem_zipIdx_iff_getElem?.mp member
    obtain ⟨passed, rfl⟩ := by simpa using kept
    exact ⟨state, found, passed⟩
  · rintro ⟨state, found, passed⟩
    exact ⟨(state, index), List.mk_mem_zipIdx_iff_getElem?.mpr found, by simp [passed]⟩

theorem pairwise_indicesOf (table : SlotTable) (test : Nat → SlotState → Bool) :
    (table.indicesOf test).Pairwise (· < ·) := by
  refine List.pairwise_filterMap.mpr ((pairwise_zipIdx table).imp ?_)
  rintro ⟨_, left⟩ ⟨_, right⟩ before index leftKept other rightKept
  obtain ⟨_, rfl⟩ : _ ∧ left = index := by simpa using leftKept
  obtain ⟨_, rfl⟩ : _ ∧ right = other := by simpa using rightKept
  exact before

theorem mem_of_tightest {candidates : List (Nat × Nat)} {best : Nat × Nat}
    (chosen : tightest candidates = some best) : best ∈ candidates := by
  induction candidates generalizing best with
  | nil => cases chosen
  | cons head rest ih =>
    unfold tightest at chosen
    split at chosen
    · cases chosen
      exact List.mem_cons_self ..
    · rename_i other found
      split at chosen
      · cases chosen
        exact List.mem_cons_of_mem head (ih found)
      · cases chosen
        exact List.mem_cons_self ..

theorem tightest_eq_none_iff {candidates : List (Nat × Nat)} :
    tightest candidates = none ↔ candidates = [] := by
  cases candidates with
  | nil => simp [tightest]
  | cons head rest =>
    unfold tightest
    split
    · simp
    · split <;> simp

/-- Of candidates in index order, none is smaller than the one that is chosen, and none that is as
small stands before it. -/
theorem tightest_least {candidates : List (Nat × Nat)} {best : Nat × Nat}
    (chosen : tightest candidates = some best)
    (ordered : candidates.Pairwise fun left right => left.1 < right.1) :
    ∀ other ∈ candidates, best.2 < other.2 ∨ best.2 = other.2 ∧ best.1 ≤ other.1 := by
  induction candidates generalizing best with
  | nil => cases chosen
  | cons head rest ih =>
    obtain ⟨first, behind⟩ := List.pairwise_cons.mp ordered
    intro other member
    unfold tightest at chosen
    split at chosen
    · rename_i none
      cases chosen
      rw [tightest_eq_none_iff.mp none, List.mem_singleton] at member
      exact Or.inr ⟨by rw [member], by rw [member]⟩
    · rename_i found
      -- the best of the rest stands behind the head, so it wins only where it is smaller
      have least := ih found behind
      have after := first _ (mem_of_tightest found)
      rcases List.mem_cons.mp member with rfl | later
      · split at chosen <;> cases chosen <;> omega
      · have step := least other later
        split at chosen <;> cases chosen <;> omega

theorem mem_fitting_iff {table : SlotTable} {least index capacity : Nat} :
    (index, capacity) ∈ table.fitting least ↔ ∃ region deletable,
      table[index]? = some (.free region deletable) ∧ region.capacity = capacity ∧
        least ≤ capacity := by
  rw [fitting, List.mem_filterMap]
  constructor
  · rintro ⟨⟨state, position⟩, member, chosen⟩
    have found := List.mem_zipIdx_iff_getElem?.mp member
    cases state with
    | unused => cases chosen
    | live region => cases chosen
    | free region deletable =>
      simp only [Option.ite_none_right_eq_some, Option.some.injEq, Prod.mk.injEq] at chosen
      obtain ⟨fits, samePosition, sameCapacity⟩ := chosen
      subst samePosition sameCapacity
      exact ⟨region, deletable, found, rfl, fits⟩
  · rintro ⟨region, deletable, found, same, fits⟩
    refine ⟨(.free region deletable, index), List.mem_zipIdx_iff_getElem?.mpr found, ?_⟩
    simp [same, fits]

theorem pairwise_fitting (table : SlotTable) (least : Nat) :
    (table.fitting least).Pairwise fun left right => left.1 < right.1 := by
  have indices : (table.fitting least).map Prod.fst = table.indicesOf fun _ state =>
      state.isFree && state.region?.any fun region => decide (least ≤ region.capacity) := by
    rw [fitting, indicesOf, List.map_filterMap]
    congr 1
    funext ⟨state, index⟩
    cases state with
    | unused => rfl
    | live region => rfl
    | free region deletable =>
      by_cases fits : least ≤ region.capacity <;>
        simp [fits, SlotState.isFree, SlotState.region?]
  exact List.pairwise_map.mp (indices ▸ pairwise_indicesOf table _)

/-- The slot is free and has room. -/
def Fits (table : SlotTable) (least index : Nat) : Prop :=
  ∃ region deletable, table[index]? = some (.free region deletable) ∧ least ≤ region.capacity

/-- The slot is free and has room, no other one with room has a smaller capacity, and none with the
same capacity has a lower index. -/
structure FitsBest (table : SlotTable) (least index : Nat) (region : Region) (deletable : Bool) :
    Prop where
  found : table[index]? = some (.free region deletable)
  room : least ≤ region.capacity
  best : ∀ (other : Nat) (held : Region) (marked : Bool),
    table[other]? = some (.free held marked) → least ≤ held.capacity →
      region.capacity < held.capacity ∨ region.capacity = held.capacity ∧ index ≤ other

theorem fitsBest_of_bestFit {table : SlotTable} {least index : Nat}
    (chosen : table.bestFit least = some index) :
    ∃ region deletable, table.FitsBest least index region deletable := by
  obtain ⟨⟨position, capacity⟩, tightestFound, rfl⟩ := Option.map_eq_some_iff.mp chosen
  obtain ⟨region, deletable, found, rfl, fits⟩ := mem_fitting_iff.mp (mem_of_tightest tightestFound)
  refine ⟨region, deletable, found, fits, fun other held marked free room => ?_⟩
  exact tightest_least tightestFound (pairwise_fitting table least) _
    (mem_fitting_iff.mpr ⟨held, marked, free, rfl, room⟩)

theorem not_fits_of_bestFit {table : SlotTable} {least : Nat} (chosen : table.bestFit least = none)
    (index : Nat) : ¬ table.Fits least index := by
  rintro ⟨region, deletable, found, room⟩
  have member := mem_fitting_iff.mpr ⟨region, deletable, found, rfl, room⟩
  rw [tightest_eq_none_iff.mp (Option.map_eq_none_iff.mp chosen)] at member
  cases member

theorem unused_of_unusedIndex {table : SlotTable} {index : Nat}
    (chosen : table.unusedIndex? = some index) : 0 < index ∧ table[index]? = some .unused := by
  obtain ⟨position, found, same⟩ := Option.map_eq_some_iff.mp chosen
  subst same
  obtain ⟨bound, unused, _⟩ := List.findIdx?_eq_some_iff_getElem.mp found
  have here : (table.drop 1)[position]? = some .unused := by
    rw [List.getElem?_eq_getElem bound, SlotState.isUnused_iff.mp unused]
  rw [List.getElem?_drop, Nat.add_comm] at here
  exact ⟨Nat.succ_pos position, here⟩

theorem unusedIndex_least {table : SlotTable} {index other : Nat}
    (chosen : table.unusedIndex? = some index) (behind : 0 < other)
    (unused : table[other]? = some .unused) : index ≤ other := by
  obtain ⟨position, found, rfl⟩ := Option.map_eq_some_iff.mp chosen
  obtain ⟨bound, _, before⟩ := List.findIdx?_eq_some_iff_getElem.mp found
  obtain ⟨earlier, rfl⟩ := Nat.exists_eq_succ_of_ne_zero (Nat.ne_of_gt behind)
  by_contra lower
  have inside : earlier < position := by omega
  refine before earlier inside (SlotState.isUnused_iff.mpr ?_)
  have here : (table.drop 1)[earlier]? = some .unused := by
    rw [List.getElem?_drop, Nat.add_comm]
    exact unused
  rw [List.getElem?_eq_getElem (Nat.lt_trans inside bound)] at here
  exact Option.some.inj here

theorem used_of_unusedIndex_none {table : SlotTable} (none : table.unusedIndex? = none) {other : Nat}
    (behind : 0 < other) : table[other]? ≠ some .unused := by
  intro unused
  obtain ⟨earlier, rfl⟩ := Nat.exists_eq_succ_of_ne_zero (Nat.ne_of_gt behind)
  have here : (table.drop 1)[earlier]? = some .unused := by
    rw [List.getElem?_drop, Nat.add_comm]
    exact unused
  have passed := List.findIdx?_eq_none_iff.mp (Option.map_eq_none_iff.mp none) _
    (List.mem_of_getElem? here)
  simp [SlotState.isUnused] at passed

/-- The index that is handed out next: the lowest unused one behind the sentinel, or a new one where
there is none. -/
def NextIndex (table : SlotTable) (index : Nat) : Prop :=
  (0 < index ∧ table[index]? = some .unused ∧
      ∀ other, 0 < other → table[other]? = some .unused → index ≤ other) ∨
    (∀ other, 0 < other → table[other]? ≠ some .unused) ∧ index = table.length

/-- An index that is handed out is the lowest unused one, or new at the end of the table. -/
theorem acquire_ok {table grown : SlotTable} {index : Nat}
    (taken : table.acquire = .ok (index, grown)) :
    (table.unusedIndex? = some index ∧ grown = table) ∨
      (table.unusedIndex? = none ∧ table.length < indexLimit ∧ index = table.length ∧
        grown = table ++ [.unused]) := by
  unfold acquire at taken
  split at taken
  · rename_i lowest found
    cases taken
    exact Or.inl ⟨found, rfl⟩
  · rename_i none
    unfold push at taken
    split at taken
    · rename_i room
      cases taken
      exact Or.inr ⟨none, room, rfl, rfl⟩
    · cases taken

theorem nextIndex_of_acquire {table grown : SlotTable} {index : Nat}
    (taken : table.acquire = .ok (index, grown)) : table.NextIndex index := by
  rcases acquire_ok taken with ⟨lowest, _⟩ | ⟨none, _, rfl, _⟩
  · obtain ⟨behind, unused⟩ := unused_of_unusedIndex lowest
    exact Or.inl ⟨behind, unused, fun _ => unusedIndex_least lowest⟩
  · exact Or.inr ⟨fun _ => used_of_unusedIndex_none none, rfl⟩

/-- An index that is handed out can be given a state, and no other slot changes. -/
theorem getElem?_set_acquired {table grown : SlotTable} {index : Nat}
    (taken : table.acquire = .ok (index, grown)) (state : SlotState) (other : Nat) :
    (grown.set index state)[other]? = if other = index then some state else table[other]? := by
  have held : index < grown.length ∧ (other ≠ index → grown[other]? = table[other]?) := by
    rcases acquire_ok taken with ⟨lowest, rfl⟩ | ⟨_, _, rfl, rfl⟩
    · exact ⟨(List.getElem?_eq_some_iff.mp (unused_of_unusedIndex lowest).2).1, fun _ => rfl⟩
    · refine ⟨by simp, fun different => ?_⟩
      rw [List.getElem?_append]
      split
      · rfl
      · rw [List.getElem?_eq_none (by simp; omega), List.getElem?_eq_none (by omega)]
  split
  · rename_i same
    rw [same, List.getElem?_set_self held.1]
  · rename_i different
    rw [List.getElem?_set_ne (Ne.symm different), held.2 different]

/-- What taking an index leaves alone: every slot that holds something, and the sentinel. -/
structure Acquired (table : SlotTable) (index : Nat) (grown : SlotTable) : Prop where
  pos : 0 < index
  unused : grown[index]? = some .unused
  same : ∀ (other : Nat) (state : SlotState), table[other]? = some state → grown[other]? = some state
  fresh : ∀ (other : Nat) (state : SlotState), table[other]? = some state → state ≠ .unused →
    other ≠ index
  mem : ∀ state ∈ grown, state ∈ table ∨ state = .unused
  length_le : table.length ≤ grown.length
  bound : table.length ≤ indexLimit → grown.length ≤ indexLimit
  full : table.length = indexLimit → grown.length = indexLimit

theorem acquired {table grown : SlotTable} {index : Nat} (filled : table ≠ [])
    (taken : table.acquire = .ok (index, grown)) : Acquired table index grown := by
  rcases acquire_ok taken with ⟨lowest, rfl⟩ | ⟨_, room, rfl, rfl⟩
  · obtain ⟨behind, unused⟩ := unused_of_unusedIndex lowest
    exact {
      pos := behind
      unused := unused
      same := fun _ _ found => found
      fresh := by
        rintro other state found used rfl
        exact used (Option.some.inj (found.symm.trans unused))
      mem := fun state member => Or.inl member
      length_le := Nat.le_refl _
      bound := id
      full := id }
  · have inside {other : Nat} {state : SlotState} (found : table[other]? = some state) :
        other < table.length := (List.getElem?_eq_some_iff.mp found).1
    exact {
      pos := List.length_pos_iff.mpr filled
      unused := by simp
      same := fun other state found => by
        rw [List.getElem?_append_left (inside found), found]
      fresh := fun other state found _ => Nat.ne_of_lt (inside found)
      mem := fun state member => by simpa using member
      length_le := by simp
      bound := fun _ => by simpa using Nat.succ_le_of_lt room
      full := fun whole => absurd room (by omega) }

theorem acquire_error {table : SlotTable} {fault : Fault} (refused : table.acquire = .error fault) :
    fault = .overflow .slotIndices ∧ table.unusedIndex? = none ∧ indexLimit ≤ table.length := by
  unfold acquire at refused
  split at refused
  · cases refused
  · rename_i none
    unfold push at refused
    split at refused
    · cases refused
    · rename_i full
      cases refused
      exact ⟨rfl, none, Nat.le_of_not_lt full⟩

end SlotTable

end SlotStore
