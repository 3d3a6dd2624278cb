import SlotStore.Container.Repair
import SlotStore.Proofs.Container.Invariant
import SlotStore.Proofs.Reconciling

/-!
Repair of a container whose file is laid out well. The guard walk meets the spans of the tiling one
after another, so every slot finds its region as it has it, and nothing is left to repair: the
container is the same afterwards. A region that no slot holds becomes a free slot
behind the table while there are indices.
-/

namespace SlotStore

namespace Laid

variable {file : File} {slots : SlotTable} {lost : List Span} {endOfFile : Nat}

/-- What a walk over the file finds. -/
theorem scan (laid : Laid file slots lost endOfFile) :
    ∃ order : List Span, order.Perm (slots.spans ++ lost) ∧
      Scan.ofFile file = .ok ⟨order.map (Span.scanned file), endOfFile - 8⟩ := by
  obtain ⟨order, same, tiles⟩ := laid.tiled
  refine ⟨order, same, ?_⟩
  have walked := walk_of_tiles tiles (by decide)
    (fun span member => laid.legal span (same.mem_iff.mp member))
    (fun span member => laid.guarded span (same.mem_iff.mp member)) laid.ended laid.held
  unfold Scan.ofFile
  rw [show firstGuard = firstOffset - 8 from rfl, walked]
  rfl

theorem distinct (laid : Laid file slots lost endOfFile) :
    ((slots.spans ++ lost).map Span.offset).Nodup := by
  obtain ⟨order, same, tiles⟩ := laid.tiled
  exact (same.map Span.offset).nodup_iff.mp tiles.distinct

theorem distinct_scanned (laid : Laid file slots lost endOfFile) {order : List Span}
    (same : order.Perm (slots.spans ++ lost)) :
    ((order.map (Span.scanned file)).map (·.offset)).Nodup := by
  rw [List.map_map]
  exact (same.map Span.offset).nodup_iff.mpr laid.distinct

theorem find_scanned (laid : Laid file slots lost endOfFile) {order : List Span}
    (same : order.Perm (slots.spans ++ lost)) {span : Span} (member : span ∈ slots.spans ++ lost) :
    (order.map (Span.scanned file)).find? (·.offset == span.offset) = some (span.scanned file) :=
  find_of_distinct (laid.distinct_scanned same) (List.mem_map_of_mem (same.mem_iff.mpr member))

/-- The scanned regions that no slot claimed are the lost ones. -/
theorem orphans_perm (laid : Laid file slots lost endOfFile) {order : List Span}
    (same : order.Perm (slots.spans ++ lost)) :
    (orphans (order.map (Span.scanned file)) (slots.spans.map Span.offset).reverse).Perm
      (lost.map (Span.scanned file)) := by
  have apart := (List.nodup_append.mp (List.map_append ▸ laid.distinct)).2.2
  have listed := (same.map (Span.scanned file)).filter fun region =>
    !(slots.spans.map Span.offset).reverse.contains region.offset
  have claimed : (slots.spans.map (Span.scanned file)).filter (fun region =>
      !(slots.spans.map Span.offset).reverse.contains region.offset) = [] := by
    refine List.filter_eq_nil_iff.mpr fun region member => ?_
    obtain ⟨span, held, rfl⟩ := List.mem_map.mp member
    simpa using ⟨span, held, rfl⟩
  have unclaimed : (lost.map (Span.scanned file)).filter (fun region =>
      !(slots.spans.map Span.offset).reverse.contains region.offset) =
        lost.map (Span.scanned file) := by
    refine List.filter_eq_self.mpr fun region member => ?_
    obtain ⟨span, free, rfl⟩ := List.mem_map.mp member
    simp only [Span.scanned_offset, List.contains_eq_mem, List.mem_reverse, List.mem_map,
      Bool.not_eq_true', decide_eq_false_iff_not]
    rintro ⟨other, held, equal⟩
    exact apart _ (List.mem_map_of_mem held) _ (List.mem_map_of_mem free) equal
  rw [List.map_append, List.filter_append, claimed, unclaimed, List.nil_append] at listed
  exact (List.mergeSort_perm _ _).trans listed

/-- Once the lost regions are recovered, every region has a slot. -/
theorem recovered (laid : Laid file slots lost endOfFile) :
    Laid file (slots ++ lost.map Span.recovered) [] endOfFile := by
  refine laid.recast ?_ ?_ ?_
  · rw [List.getElem?_append_left (List.getElem?_eq_some_iff.mp laid.sentinel).1]
    exact laid.sentinel
  · intro state member region held
    rcases List.mem_append.mp member with old | fresh
    · exact laid.sized state old region held
    · obtain ⟨span, _, rfl⟩ := List.mem_map.mp fresh
      cases held
      exact Nat.le_refl _
  · rw [SlotTable.spans_eq_append (shape_recovered slots lost), List.append_nil]

/-- Lost regions that are listed in the order of their offsets are left over in that order. -/
theorem orphans_eq (laid : Laid file slots lost endOfFile) {order : List Span}
    (same : order.Perm (slots.spans ++ lost))
    (placed : lost.Pairwise fun left right => left.next ≤ right.offset) :
    orphans (order.map (Span.scanned file)) (slots.spans.map Span.offset).reverse =
      lost.map (Span.scanned file) := by
  have listed := laid.orphans_perm same
  -- both lists are in the order of the offsets, and no offset stands for two regions
  have sorted : (((order.map (Span.scanned file)).filter fun region =>
      !(slots.spans.map Span.offset).reverse.contains region.offset).mergeSort
        fun left right => decide (left.offset ≤ right.offset)).Pairwise
          fun left right => decide (left.offset ≤ right.offset) = true :=
    List.pairwise_mergeSort (by simp only [decide_eq_true_eq]; omega)
      (by simp only [Bool.or_eq_true, decide_eq_true_eq]; omega) _
  have ordered : (lost.map (Span.scanned file)).Pairwise
      fun left right => decide (left.offset ≤ right.offset) = true := by
    refine List.pairwise_map.mpr (placed.imp fun before => decide_eq_true ?_)
    simp only [Span.next] at before
    simp only [Span.scanned_offset]
    omega
  refine List.Perm.eq_of_pairwise ?_ sorted ordered listed
  · intro left right leftMember rightMember below above
    obtain ⟨span, free, rfl⟩ := List.mem_map.mp (listed.mem_iff.mp leftMember)
    obtain ⟨other, otherFree, rfl⟩ := List.mem_map.mp rightMember
    have offset : span.offset = other.offset :=
      Nat.le_antisymm (of_decide_eq_true below) (of_decide_eq_true above)
    exact congrArg _ (List.inj_on_of_nodup_map laid.distinct (List.mem_append_right _ free)
      (List.mem_append_right _ otherFree) offset)

/-- Every slot finds its region in a scan of the file, so only the lost regions are left over. -/
theorem reconcile_eq (laid : Laid file slots lost endOfFile) {order : List Span}
    (same : order.Perm (slots.spans ++ lost)) :
    reconcile slots ⟨order.map (Span.scanned file), endOfFile - 8⟩ =
      match recoverRegions slots
          (orphans (order.map (Span.scanned file)) (slots.spans.map Span.offset).reverse) with
      | (.error fault, final) => (.error fault, final)
      | (.ok recovered, final) =>
        (.ok {
          regionsScanned := order.length
          liveRegions := (order.map (Span.scanned file)).countP (·.live)
          freeRegions := (order.map (Span.scanned file)).countP fun region => !region.live
          demoted := [], recovered, capacityFixed := [], endOfFile := endOfFile }, final) := by
  have distinct := laid.distinct_scanned same
  have settled := settle_of_found _ slots 0 []
    (fun span member => ⟨_, laid.find_scanned same (List.mem_append_left lost member), rfl⟩)
    (by
      rw [List.append_nil]
      exact (List.nodup_append.mp (List.map_append ▸ laid.distinct)).1)
  have low := laid.first_le
  have lifted : endOfFile - 8 + 8 = endOfFile := by
    simp only [firstOffset] at low
    omega
  unfold reconcile
  rw [if_neg (by simp [laid.sentinel, SlotState.isUnused])]
  rcases outcome : recoverRegions slots (orphans (order.map (Span.scanned file))
    (slots.spans.map Span.offset).reverse) with ⟨_ | _, _⟩ <;>
    simp only [distinctRegions_of_nodup distinct, settled, List.append_nil, List.length_map,
      Scan.nextOffset, lifted, outcome]

theorem reconcile_of_none_lost (laid : Laid file slots [] endOfFile) {order : List Span}
    (same : order.Perm (slots.spans ++ [])) :
    reconcile slots ⟨order.map (Span.scanned file), endOfFile - 8⟩ =
      (.ok {
        regionsScanned := order.length
        liveRegions := (order.map (Span.scanned file)).countP (·.live)
        freeRegions := (order.map (Span.scanned file)).countP fun region => !region.live
        demoted := [], recovered := [], capacityFixed := [], endOfFile := endOfFile }, slots) := by
  have spans : ((order.map (Span.scanned file)).map ScannedRegion.span).Perm slots.spans := by
    rw [map_span_scanned]
    exact List.append_nil slots.spans ▸ same
  have low := laid.first_le
  have lifted : endOfFile - 8 + 8 = endOfFile := by
    simp only [firstOffset] at low
    omega
  rw [reconcile_of_matching laid.sentinel (laid.distinct_scanned same) spans]
  simp only [List.length_map, Scan.nextOffset, lifted]

theorem reconcile_of_lost (laid : Laid file slots lost endOfFile) (some : lost ≠ [])
    (full : slots.length = SlotTable.indexLimit) {order : List Span}
    (same : order.Perm (slots.spans ++ lost)) :
    reconcile slots ⟨order.map (Span.scanned file), endOfFile - 8⟩ =
      (.error (.overflow .slotIndices), slots) := by
  obtain ⟨span, member⟩ := List.exists_mem_of_ne_nil lost some
  have listed := (laid.orphans_perm same).mem_iff.mpr (List.mem_map_of_mem member)
  rw [laid.reconcile_eq same]
  cases left : orphans (order.map (Span.scanned file)) (slots.spans.map Span.offset).reverse with
  | nil =>
    rw [left] at listed
    cases listed
  | cons region rest =>
    have refused : slots.push (.free ⟨region.offset, region.capacity, region.capacity⟩ false) =
        .error (.overflow .slotIndices) := by
      unfold SlotTable.push
      rw [if_neg (by omega)]
    simp only [recoverRegions, refused]

end Laid

namespace Container

variable {container : Container}

theorem adoptReport_of_none_demoted {report : RepairReport} (none : report.demoted = [])
    (slots : SlotTable) : container.adoptReport report slots = { container with
      slots := slots
      endOfFile := report.endOfFile
      dirty := container.dirty || decide (report.endOfFile ≠ container.endOfFile) ||
        !report.isClean } := by
  have kept (index : Option Nat) : (index.filter fun _ => true) = index := by
    cases index <;> rfl
  simp [adoptReport, none, kept]

theorem adoptReport_of_isClean {report : RepairReport} (clean : report.isClean = true)
    (still : report.endOfFile = container.endOfFile) :
    container.adoptReport report container.slots = container := by
  have none : report.demoted = [] := by
    simp only [RepairReport.isClean, Bool.and_eq_true, List.isEmpty_iff] at clean
    exact clean.1.1
  rw [adoptReport_of_none_demoted none]
  simp [clean, still]

theorem validate_of_reconcile {scan : Scan} {report : RepairReport} {slots : SlotTable}
    (scanned : Scan.ofFile container.file = .ok scan)
    (reconciled : reconcile container.slots scan = (.ok report, slots)) :
    container.validate = (.ok report, container.adoptReport report slots) := by
  unfold validate
  rw [scanned]
  simp only [reconciled]

/-- What validation makes of a container with these regions that no slot holds: each of them gets a
free slot behind the table, in their order, and no other slot changes. -/
structure Regained (container : Container) (lost : List Span) (stop : Nat) (report : RepairReport)
    (repaired : Container) : Prop where
  validated : container.validate = (.ok report, repaired)
  demoted : report.demoted = []
  capacityFixed : report.capacityFixed = []
  recovered : report.recovered = List.range' container.slots.length lost.length
  reported : report.endOfFile = stop
  slots : repaired.slots = container.slots ++ lost.map Span.recovered
  endOfFile : repaired.endOfFile = stop
  tableIndex : repaired.tableIndex = container.tableIndex
  root : repaired.root = container.root
  file : repaired.file = container.file

/-- Validation recovers the regions that no slot holds. -/
theorem validate_of_lost {lost : List Span} {stop : Nat}
    (laid : Laid container.file container.slots lost stop)
    (placed : lost.Pairwise fun left right => left.next ≤ right.offset)
    (room : container.slots.length + lost.length ≤ SlotTable.indexLimit) :
    ∃ report repaired, Regained container lost stop report repaired := by
  obtain ⟨order, same, scanned⟩ := laid.scan
  have reconciled := laid.reconcile_eq same
  rw [laid.orphans_eq same placed, recoverRegions_of_room (by rw [List.length_map]; exact room),
    map_span_scanned, List.length_map] at reconciled
  have validated := validate_of_reconcile scanned reconciled
  rw [adoptReport_of_none_demoted rfl] at validated
  exact ⟨_, _, validated, rfl, rfl, rfl, rfl, rfl, rfl, rfl, rfl, rfl⟩

/-- Validation fails where there are not enough indices for the regions that no slot holds. -/
theorem validate_of_excess {lost : List Span} {stop : Nat}
    (laid : Laid container.file container.slots lost stop)
    (placed : lost.Pairwise fun left right => left.next ≤ right.offset)
    (limited : container.slots.length ≤ SlotTable.indexLimit)
    (excess : SlotTable.indexLimit < container.slots.length + lost.length) :
    container.validate.1 = .error (.overflow .slotIndices) := by
  obtain ⟨order, same, scanned⟩ := laid.scan
  have reconciled := laid.reconcile_eq same
  rw [laid.orphans_eq same placed] at reconciled
  have refused : (recoverRegions container.slots (lost.map (Span.scanned container.file))).1 =
      .error (.overflow .slotIndices) :=
    recoverRegions_of_excess limited (by rw [List.length_map]; exact excess)
  unfold validate
  rw [scanned]
  simp only [reconciled]
  rcases outcome : recoverRegions container.slots (lost.map (Span.scanned container.file)) with
    ⟨fault | recovered, final⟩
  · rw [outcome] at refused
    cases refused
    rfl
  · rw [outcome] at refused
    cases refused

/-- What a validation reports where the slots hold all regions of the file. -/
def cleanReport (container : Container) : RepairReport where
  regionsScanned := container.slots.spans.length
  liveRegions := (container.slots.spans.map (Span.scanned container.file)).countP (·.live)
  freeRegions :=
    (container.slots.spans.map (Span.scanned container.file)).countP fun region => !region.live
  demoted := []
  recovered := []
  capacityFixed := []
  endOfFile := container.endOfFile

/-- A container that holds every region of its file validates clean. -/
theorem validate_of_none_lost (laid : Laid container.file container.slots [] container.endOfFile) :
    container.validate = (.ok container.cleanReport, container) := by
  obtain ⟨order, same, scanned⟩ := laid.scan
  have reconciled := laid.reconcile_of_none_lost same
  rw [List.append_nil] at same
  have listed := same.map (Span.scanned container.file)
  rw [same.length_eq, listed.countP_eq, listed.countP_eq] at reconciled
  rw [validate_of_reconcile scanned reconciled, adoptReport_of_isClean rfl rfl]
  rfl

theorem validate_of_full {lost : List Span}
    (laid : Laid container.file container.slots lost container.endOfFile) (some : lost ≠ [])
    (full : container.slots.length = SlotTable.indexLimit) :
    container.validate = (.error (.overflow .slotIndices), container) := by
  obtain ⟨order, same, scanned⟩ := laid.scan
  unfold validate
  rw [scanned]
  simp only [laid.reconcile_of_lost some full same]

/-- Validation finds nothing that it could repair. Where every index is taken it may miss one. -/
theorem Sound.validate_cases (sound : container.Sound) :
    container.validate = (.ok container.cleanReport, container) ∨
      container.slots.length = SlotTable.indexLimit ∧
        container.validate = (.error (.overflow .slotIndices), container) := by
  obtain ⟨lost, laid, full⟩ := sound.laid
  by_cases kept : lost = []
  · subst kept
    exact Or.inl (validate_of_none_lost laid)
  · exact Or.inr ⟨full kept, validate_of_full laid kept (full kept)⟩

theorem Sound.validate_eq (sound : container.Sound) : container.validate.2 = container := by
  rcases sound.validate_cases with validated | ⟨_, refused⟩
  · rw [validated]
  · rw [refused]

end Container

end SlotStore
