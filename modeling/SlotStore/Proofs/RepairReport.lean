import SlotStore.Proofs.Reconciling

/-!
What a reconciliation reports. It fails just where the sentinel is taken or two slots hold one
scanned region. Otherwise each slot is treated by itself, the regions that no slot holds are appended
in the order of their offsets, and the report lists what was demoted, resized and recovered.
-/

namespace SlotStore

namespace SlotTable

/-- The slot holds a region that starts at an offset. -/
def HoldsAt (table : SlotTable) (index offset : Nat) : Prop :=
  ∃ state region, table[index]? = some state ∧ state.region? = some region ∧ region.offset = offset

def Shares (table : SlotTable) (regions : List ScannedRegion) : Prop :=
  ∃ left right, left ≠ right ∧ ∃ scanned ∈ regions,
    table.HoldsAt left scanned.offset ∧ table.HoldsAt right scanned.offset

/-- The scanned regions that no slot holds. -/
def unheld (table : SlotTable) (regions : List ScannedRegion) : List ScannedRegion :=
  regions.filter fun region => table.all fun state => state.region?.all (·.offset != region.offset)

theorem all_apart_iff {table : SlotTable} {offset : Nat} :
    (table.all fun state => state.region?.all (·.offset != offset)) = true ↔
      ∀ index, ¬ table.HoldsAt index offset := by
  rw [List.all_eq_true]
  constructor
  · rintro apart index ⟨state, held, found, holds, same⟩
    simpa [holds, same] using apart state (List.mem_of_getElem? found)
  · intro none state member
    obtain ⟨index, found⟩ := List.mem_iff_getElem?.mp member
    cases holds : state.region? with
    | none => rfl
    | some held =>
      have different : held.offset ≠ offset :=
        fun same => none index ⟨state, held, found, holds, same⟩
      simpa using different

theorem mem_unheld_iff {table : SlotTable} {regions : List ScannedRegion} {region : ScannedRegion} :
    region ∈ table.unheld regions ↔
      region ∈ regions ∧ ∀ index, ¬ table.HoldsAt index region.offset := by
  rw [unheld, List.mem_filter, all_apart_iff]

end SlotTable

theorem find?_eq_some_iff_of_distinct {regions : List ScannedRegion}
    (distinct : (regions.map (·.offset)).Nodup) {offset : Nat} {scanned : ScannedRegion} :
    regions.find? (·.offset == offset) = some scanned ↔
      scanned ∈ regions ∧ scanned.offset = offset := by
  constructor
  · intro sought
    exact ⟨List.mem_of_find?_eq_some sought, by simpa using List.find?_some sought⟩
  · rintro ⟨member, rfl⟩
    exact find_of_distinct distinct member

theorem find?_eq_none_iff {regions : List ScannedRegion} {offset : Nat} :
    regions.find? (·.offset == offset) = none ↔ ∀ scanned ∈ regions, scanned.offset ≠ offset := by
  simp

theorem SlotState.isLost_iff {regions : List ScannedRegion} {state : SlotState} :
    state.isLost regions = true ↔ ∃ region, state.region? = some region ∧
      ∀ scanned ∈ regions, scanned.offset ≠ region.offset := by
  simp only [SlotState.isLost, Option.any_eq_true, Option.isNone_iff_eq_none, find?_eq_none_iff]

theorem SlotState.isResized_iff {regions : List ScannedRegion}
    (distinct : (regions.map (·.offset)).Nodup) {state : SlotState} :
    state.isResized regions = true ↔ ∃ region, state.region? = some region ∧
      ∃ scanned ∈ regions, scanned.offset = region.offset ∧ scanned.capacity ≠ region.capacity := by
  simp only [SlotState.isResized, Option.any_eq_true, find?_eq_some_iff_of_distinct distinct,
    bne_iff_ne, and_assoc]

theorem SlotState.offset_settled_iff {regions : List ScannedRegion} {state : SlotState}
    {offset : Nat} : (state.settled regions).span?.map Span.offset = some offset ↔
      (∃ region, state.region? = some region ∧ region.offset = offset) ∧
        ∃ scanned ∈ regions, scanned.offset = offset := by
  cases held : state.region? with
  | none => simp [SlotState.settled_of_unheld held]
  | some region =>
    cases sought : regions.find? (·.offset == region.offset) with
    | none =>
      have absent := find?_eq_none_iff.mp sought
      rw [SlotState.settled_of_lost held sought]
      refine iff_of_false (by simp) ?_
      rintro ⟨⟨_, own, rfl⟩, scanned, member, same⟩
      cases own
      exact absent scanned member same
    | some scanned =>
      have here : scanned.offset = region.offset := by
        simpa using List.find?_some sought
      have member := List.mem_of_find?_eq_some sought
      rw [SlotState.settled_of_found held sought, SlotState.span?_adopt held here]
      simp only [Option.map_some, ScannedRegion.span, here, Option.some.injEq, exists_eq_left']
      refine ⟨?_, And.left⟩
      rintro rfl
      exact ⟨rfl, scanned, member, here⟩

theorem keptOffsets_eq (regions : List ScannedRegion) (table : SlotTable) :
    keptOffsets regions table =
      table.filterMap fun state => (state.settled regions).span?.map Span.offset := by
  rw [keptOffsets, SlotTable.spans, List.filterMap_map, List.map_filterMap]
  rfl

theorem mem_keptOffsets_iff {regions : List ScannedRegion} {table : SlotTable} {offset : Nat} :
    offset ∈ keptOffsets regions table ↔
      (∃ index, table.HoldsAt index offset) ∧ ∃ scanned ∈ regions, scanned.offset = offset := by
  simp only [keptOffsets_eq, List.mem_filterMap, SlotState.offset_settled_iff]
  constructor
  · rintro ⟨state, member, ⟨region, held, same⟩, found⟩
    obtain ⟨index, here⟩ := List.mem_iff_getElem?.mp member
    exact ⟨⟨index, state, region, here, held, same⟩, found⟩
  · rintro ⟨⟨index, state, region, here, held, same⟩, found⟩
    exact ⟨state, List.mem_of_getElem? here, ⟨region, held, same⟩, found⟩

theorem nodup_keptOffsets_iff {regions : List ScannedRegion} {table : SlotTable} :
    (keptOffsets regions table).Nodup ↔ ¬ table.Shares regions := by
  rw [keptOffsets_eq, List.Nodup, List.pairwise_filterMap, List.pairwise_iff_getElem]
  simp only [SlotState.offset_settled_iff]
  constructor
  · rintro apart ⟨left, right, different, scanned, member, leftHolds, rightHolds⟩
    have clash {left right : Nat} (before : left < right)
        (leftHolds : table.HoldsAt left scanned.offset)
        (rightHolds : table.HoldsAt right scanned.offset) : False := by
      obtain ⟨_, leftRegion, leftFound, leftHeld⟩ := leftHolds
      obtain ⟨_, rightRegion, rightFound, rightHeld⟩ := rightHolds
      obtain ⟨leftBound, rfl⟩ := List.getElem?_eq_some_iff.mp leftFound
      obtain ⟨rightBound, rfl⟩ := List.getElem?_eq_some_iff.mp rightFound
      exact apart left right leftBound rightBound before _
        ⟨⟨leftRegion, leftHeld⟩, scanned, member, rfl⟩ _
        ⟨⟨rightRegion, rightHeld⟩, scanned, member, rfl⟩ rfl
    rcases Nat.lt_or_gt_of_ne different with before | behind
    · exact clash before leftHolds rightHolds
    · exact clash behind rightHolds leftHolds
  · intro none left right leftBound rightBound before offset leftHolds other rightHolds same
    obtain ⟨⟨leftRegion, leftHeld, leftSame⟩, scanned, member, here⟩ := leftHolds
    obtain ⟨⟨rightRegion, rightHeld, rightSame⟩, _⟩ := rightHolds
    refine none ⟨left, right, Nat.ne_of_lt before, scanned, member, ?_, ?_⟩
    · exact ⟨_, leftRegion, List.getElem?_eq_getElem leftBound, leftHeld, leftSame.trans here.symm⟩
    · exact ⟨_, rightRegion, List.getElem?_eq_getElem rightBound, rightHeld,
        rightSame.trans (same ▸ here.symm)⟩

theorem leftover_perm (regions : List ScannedRegion) (table : SlotTable) :
    (leftover regions table).Perm (table.unheld regions) := by
  refine (List.mergeSort_perm _ _).trans (.of_eq (List.filter_congr fun region member => ?_))
  have claimed : (!(keptOffsets regions table).reverse.contains region.offset) = true ↔
      ∀ index, ¬ table.HoldsAt index region.offset := by
    rw [Bool.not_eq_true', List.contains_eq_mem, decide_eq_false_iff_not, List.mem_reverse,
      mem_keptOffsets_iff, and_iff_left ⟨region, member, rfl⟩, not_exists]
  exact Bool.eq_iff_iff.mpr (claimed.trans SlotTable.all_apart_iff.symm)

theorem leftover_sorted {regions : List ScannedRegion}
    (distinct : (regions.map (·.offset)).Nodup) (table : SlotTable) :
    (leftover regions table).Pairwise fun left right => left.offset < right.offset := by
  have sorted : (leftover regions table).Pairwise
      fun left right => decide (left.offset ≤ right.offset) = true :=
    List.pairwise_mergeSort (by simp only [decide_eq_true_eq]; omega)
      (by simp only [Bool.or_eq_true, decide_eq_true_eq]; omega) _
  have apart : ((leftover regions table).map (·.offset)).Nodup := by
    refine ((leftover_perm regions table).map _).nodup_iff.mpr ?_
    exact distinct.sublist (List.filter_sublist.map _)
  exact (sorted.and (List.pairwise_map.mp apart)).imp fun both =>
    Nat.lt_of_le_of_ne (of_decide_eq_true both.1) both.2

/-- The second table is the first one repaired after a scan, and the report says how. A slot whose
region was found keeps its kind and its offset and takes the capacity that was found, and its size is
cut only where that is another one. -/
structure Repaired (table : SlotTable) (regions : List ScannedRegion) (report : RepairReport)
    (final : SlotTable) : Prop where
  unused : ∀ index : Nat, table[index]? = some .unused → final[index]? = some .unused
  lost : ∀ (index : Nat) (state : SlotState) (region : Region), table[index]? = some state →
    state.region? = some region → (∀ scanned ∈ regions, scanned.offset ≠ region.offset) →
      final[index]? = some .unused
  kept : ∀ (index : Nat) (state : SlotState) (region : Region), table[index]? = some state →
    state.region? = some region → ∀ scanned ∈ regions, scanned.offset = region.offset →
      final[index]? = some (state.mapRegion fun held => {
        offset := held.offset
        size := if held.capacity = scanned.capacity then held.size
          else min held.size scanned.capacity
        capacity := scanned.capacity })
  demoted : report.demoted.Pairwise (· < ·) ∧ ∀ index, index ∈ report.demoted ↔
    ∃ state region, table[index]? = some state ∧ state.region? = some region ∧
      ∀ scanned ∈ regions, scanned.offset ≠ region.offset
  resized : report.capacityFixed.Pairwise (· < ·) ∧ ∀ index, index ∈ report.capacityFixed ↔
    ∃ state region, table[index]? = some state ∧ state.region? = some region ∧
      ∃ scanned ∈ regions, scanned.offset = region.offset ∧ scanned.capacity ≠ region.capacity
  recovered : ∃ found : List ScannedRegion,
    found.Pairwise (fun left right => left.offset < right.offset) ∧
      (∀ region, region ∈ found ↔
        region ∈ regions ∧ ∀ index, ¬ table.HoldsAt index region.offset) ∧
      final.drop table.length = found.map (fun region =>
        SlotState.free ⟨region.offset, region.capacity, region.capacity⟩ false) ∧
      report.recovered = List.range' table.length found.length

theorem Region.adopt_eq (region : Region) (scanned : ScannedRegion) :
    region.adopt scanned = {
      offset := region.offset
      size := if region.capacity = scanned.capacity then region.size
        else min region.size scanned.capacity
      capacity := scanned.capacity } := by
  unfold Region.adopt
  split
  · rename_i same
    rw [← same]
  · rfl

theorem repaired_of_ok {table final : SlotTable} {scan : Scan} {report : RepairReport}
    (done : reconcile table scan = (.ok report, final))
    (distinct : (scan.regions.map (·.offset)).Nodup) :
    Repaired table scan.regions report final := by
  obtain ⟨_, _, grown, demoted, resized, recovered, _⟩ := reconcile_ok done distinct
  have settled {index : Nat} {state : SlotState} (found : table[index]? = some state) :=
    getElem?_of_settled grown found
  exact {
    unused := fun index found => settled found
    lost := by
      intro index state region found held gone
      rw [settled found, SlotState.settled_of_lost held (find?_eq_none_iff.mpr gone)]
    kept := by
      intro index state region found held scanned member same
      rw [settled found, SlotState.settled_of_found held
        ((find?_eq_some_iff_of_distinct distinct).mpr ⟨member, same⟩)]
      simp only [Region.adopt_eq]
    demoted := by
      rw [demoted]
      refine ⟨SlotTable.pairwise_indicesOf _ _, fun index => ?_⟩
      simp only [SlotTable.mem_indicesOf_iff, SlotState.isLost_iff, exists_and_left]
    resized := by
      rw [resized]
      refine ⟨SlotTable.pairwise_indicesOf _ _, fun index => ?_⟩
      simp only [SlotTable.mem_indicesOf_iff, SlotState.isResized_iff distinct, exists_and_left]
    recovered := by
      refine ⟨leftover scan.regions table, leftover_sorted distinct table, fun region => ?_, ?_,
        recovered⟩
      · rw [(leftover_perm scan.regions table).mem_iff, SlotTable.mem_unheld_iff]
      · rw [grown, ← List.length_map (SlotState.settled scan.regions), List.drop_left, List.map_map]
        rfl }

/-- Reconciliation is exact. Over any table and any scan whose regions start at different offsets,
with indices enough for the regions that no slot holds, it fails just where the sentinel is not there
or in use, or two slots hold one scanned region. Otherwise the table is repaired slot by slot and the
report lists what changed, and the same scan finds nothing to repair in the table that is left. -/
theorem reconciliation_of_distinct {table : SlotTable} {scan : Scan}
    (distinct : (scan.regions.map (·.offset)).Nodup)
    (room : table.length + (table.unheld scan.regions).length ≤ SlotTable.indexLimit) :
    ((∃ fault final, reconcile table scan = (.error fault, final)) ↔
        table[0]? ≠ some .unused ∨ table.Shares scan.regions) ∧
      ∀ report final, reconcile table scan = (.ok report, final) →
        Repaired table scan.regions report final ∧
          ∃ again, reconcile final scan = (.ok again, final) ∧ again.isClean = true := by
  refine ⟨⟨?_, ?_⟩, fun report final done => ?_⟩
  · rintro ⟨fault, final, stopped⟩
    by_contra sound
    obtain ⟨sentinel, unshared⟩ := not_or.mp sound
    rw [← (leftover_perm scan.regions table).length_eq] at room
    obtain ⟨_, _, done⟩ := reconcile_of_unshared (not_not.mp sentinel) distinct
      (nodup_keptOffsets_iff.mpr unshared) room
    cases stopped.symm.trans done
  · intro broken
    rcases outcome : reconcile table scan with ⟨fault | report, final⟩
    · exact ⟨fault, final, rfl⟩
    · obtain ⟨sentinel, unshared, _⟩ := reconcile_ok outcome distinct
      rcases broken with taken | shared
      · exact absurd sentinel taken
      · exact absurd shared (nodup_keptOffsets_iff.mp unshared)
  · have reconciled := reconciled_of_ok done distinct
    exact ⟨repaired_of_ok done distinct, _,
      reconcile_of_matching reconciled.sentinel distinct reconciled.spans, rfl⟩

/-- One slot is resized, one demoted and one kept, and a region is recovered. -/
theorem reconciliation_of_mixed_slots : ∃ (scan : Scan) (report : RepairReport) (final : SlotTable),
    scan.regions = [⟨0x238, 16, true⟩, ⟨0x258, 48, false⟩, ⟨0x298, 16, true⟩] ∧
      reconcile [.unused, .live ⟨0x238, 20, 32⟩, .free ⟨0x900, 5, 16⟩ true,
        .free ⟨0x258, 4, 48⟩ true] scan = (.ok report, final) ∧
      final = [.unused, .live ⟨0x238, 16, 16⟩, .unused, .free ⟨0x258, 4, 48⟩ true,
        .free ⟨0x298, 16, 16⟩ false] ∧
      report.demoted = [2] ∧ report.capacityFixed = [1] ∧ report.recovered = [4] ∧
        ∃ again, reconcile final scan = (.ok again, final) ∧ again.isClean = true := by
  obtain ⟨scan, regions⟩ : ∃ scan : Scan,
      scan.regions = [⟨0x238, 16, true⟩, ⟨0x258, 48, false⟩, ⟨0x298, 16, true⟩] :=
    ⟨⟨_, 0x2b0⟩, rfl⟩
  have reconciled : ∃ report final, reconcile [.unused, .live ⟨0x238, 20, 32⟩,
      .free ⟨0x900, 5, 16⟩ true, .free ⟨0x258, 4, 48⟩ true] scan = (.ok report, final) ∧
        final = [.unused, .live ⟨0x238, 16, 16⟩, .unused, .free ⟨0x258, 4, 48⟩ true,
          .free ⟨0x298, 16, 16⟩ false] ∧
        report.demoted = [2] ∧ report.capacityFixed = [1] ∧ report.recovered = [4] := by
    simp [reconcile, regions, distinctRegions, settle, orphans, recoverRegions, SlotTable.push,
      SlotTable.indexLimit, SlotState.isUnused, SlotState.region?, SlotState.mapRegion, Region.adopt]
  obtain ⟨report, final, done, left, demoted, resized, recovered⟩ := reconciled
  have distinct : (scan.regions.map (·.offset)).Nodup := by
    rw [regions]
    decide
  have repaired := (reconciliation_of_distinct distinct (by rw [regions]; decide)).2 report final done
  exact ⟨scan, report, final, regions, done, left, demoted, resized, recovered, repaired.2⟩

end SlotStore
