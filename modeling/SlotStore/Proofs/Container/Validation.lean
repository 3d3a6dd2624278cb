import SlotStore.Proofs.Container.Exhaustion
import SlotStore.Proofs.Container.Placement

/-!
Validation of a container of which nothing is known, neither its slot table nor its file. Where it
succeeds the slots in use are the regions of the file, one for each, a second validation finds nothing
to repair, and every region that is handed out afterwards stands apart from those of all other slots.
-/

namespace SlotStore

def ContainerAct.Reopens : ContainerAct → Prop
  | .reopen _ => True
  | _ => False

namespace Container

variable {container repaired : Container}

/-- The containers that operations lead to until the container is closed. Its file may be changed by
others as well. A validation on the way may fail, but not with half of its repair done. -/
inductive Continued (repaired : Container) : Container → Prop where
  | start : Continued repaired repaired
  | step {later next : Container} (continued : Continued repaired later) (act : ContainerAct)
      (performed : later.perform act = some next) (kept : ¬act.Reopens)
      (indexed : act = .validate → later.validate.1 ≠ .error (.overflow .slotIndices)) :
      Continued repaired next
  | disturbed {later : Container} (continued : Continued repaired later) (file : File) :
      Continued repaired { later with file := file }

@[simp] theorem adoptReport_endOfFile (container : Container) (report : RepairReport)
    (slots : SlotTable) : (container.adoptReport report slots).endOfFile = report.endOfFile := rfl

/-- A validation that succeeds has scanned the file and reconciled the slots with what it found. -/
theorem validate_ok {report : RepairReport} (validated : container.validate = (.ok report, repaired)) :
    ∃ scan, Scan.ofFile container.file = .ok scan ∧
      Reconciled container.slots scan report repaired.slots ∧
        repaired = container.adoptReport report repaired.slots := by
  unfold validate at validated
  split at validated
  · cases validated
  · rename_i scan scanned
    split at validated
    · cases validated
    · rename_i reconciled
      cases validated
      exact ⟨scan, scanned, reconciled_of_ok reconciled (distinct_of_scan scanned), rfl⟩

theorem placed_of_validated {report : RepairReport}
    (validated : container.validate = (.ok report, repaired)) : repaired.Placed := by
  obtain ⟨scan, scanned, reconciled, adopted⟩ := validate_ok validated
  refine ⟨reconciled.sentinel, scan.regions.map ScannedRegion.span, [], ?_, ?_⟩
  · rw [List.append_nil]
    exact reconciled.spans
  · rw [adopted, adoptReport_endOfFile, reconciled.endOfFile]
    exact (scan_ok scanned).1

theorem Placed.validate (placed : container.Placed)
    (indexed : container.validate.1 ≠ .error (.overflow .slotIndices)) :
    container.validate.2.Placed := by
  rcases validated : container.validate with ⟨fault | report, left⟩
  · rw [validated] at indexed
    unfold Container.validate at validated
    split at validated
    · cases validated
      exact placed
    · split at validated
      · rename_i stopped
        cases validated
        have full := reconcile_error stopped placed.sentinel placed.distinct
        exact absurd (congrArg Except.error full) indexed
      · cases validated
  · exact placed_of_validated validated

theorem Placed.continued (placed : repaired.Placed) {later : Container}
    (continued : Continued repaired later) : later.Placed := by
  induction continued with
  | start => exact placed
  | disturbed _ file ih => exact ih.withFile file
  | step _ act performed kept indexed ih =>
    cases act with
    | newEntry size => exact Option.some.inj performed ▸ ih.newEntry size
    | append acts ending => exact Option.some.inj performed ▸ ih.appendEntry acts ending
    | view index acts => exact Option.some.inj performed ▸ ih.view index acts
    | write index data pos => exact Option.some.inj performed ▸ ih.write index data pos
    | release index => exact Option.some.inj performed ▸ ih.restated (restated_release _ index)
    | claim index => exact Option.some.inj performed ▸ ih.restated (restated_claim _ index)
    | delete index => exact Option.some.inj performed ▸ ih.restated (restated_delete _ index)
    | setRoot index => exact Option.some.inj performed ▸ ih.setRoot index
    | validate => exact Option.some.inj performed ▸ ih.validate (indexed rfl)
    | flush => exact Option.some.inj performed ▸ ih.flush
    | reopen settings => exact absurd trivial kept

theorem table_of_validated {report : RepairReport}
    (validated : container.validate = (.ok report, repaired))
    (table : ∀ index, container.tableIndex = some index →
      ∃ region, container.slots[index]? = some (.live region))
    {index : Nat} (reserved : repaired.tableIndex = some index) :
    ∃ region, repaired.slots[index]? = some (.live region) := by
  obtain ⟨scan, _, reconciled, adopted⟩ := validate_ok validated
  rw [adopted] at reserved
  obtain ⟨named, kept⟩ := Option.filter_eq_some_iff.mp reserved
  obtain ⟨region, live⟩ := table index named
  exact reconciled.live index region live (by simpa using kept)

theorem validate_of_validated {report : RepairReport}
    (validated : container.validate = (.ok report, repaired)) :
    ∃ again, repaired.validate = (.ok again, repaired) ∧ again.isClean = true ∧
      again.endOfFile = report.endOfFile := by
  obtain ⟨scan, scanned, reconciled, adopted⟩ := validate_ok validated
  have file : repaired.file = container.file := by
    rw [adopted]
    rfl
  have stop : scan.nextOffset = repaired.endOfFile := by
    rw [adopted, adoptReport_endOfFile, reconciled.endOfFile]
  have settled := reconcile_of_matching reconciled.sentinel (distinct_of_scan scanned)
    reconciled.spans
  have validated := validate_of_reconcile (file ▸ scanned) settled
  rw [adoptReport_of_isClean rfl stop] at validated
  exact ⟨_, validated, rfl, reconciled.endOfFile.symm⟩

/-- What a validation that succeeds makes of any container. The slots in use hold the regions of the
file, one for each, and these tile it with room for two guard words between them. A slot for the table
that is live stays so or is forgotten. A second validation changes nothing, and every region that is
handed out later stands apart from those of all other slots. -/
theorem layout_of_validated {report : RepairReport}
    (validated : container.validate = (.ok report, repaired)) :
    (∃ scan, Scan.ofFile container.file = .ok scan ∧
      (scan.regions.map ScannedRegion.span).Perm repaired.slots.spans ∧
        Tiles 0x238 (scan.regions.map ScannedRegion.span) repaired.endOfFile ∧
          ∀ region ∈ scan.regions, 0 < region.capacity ∧ region.capacity % 16 = 0 ∧
            Guarded repaired.file region.span) ∧
      ((∀ index, container.tableIndex = some index →
          ∃ region, container.slots[index]? = some (.live region)) →
        ∀ index, repaired.tableIndex = some index →
          ∃ region, repaired.slots[index]? = some (.live region)) ∧
      (∃ again, repaired.validate = (.ok again, repaired) ∧ again.isClean = true ∧
        again.endOfFile = report.endOfFile) ∧
      ∀ later, Continued repaired later →
        (∀ size index new, later.newEntry size = (.ok index, new) → new.Separate index) ∧
          ∀ acts ending notes index new,
            later.appendEntry acts ending = ((notes, .slot index), new) → new.Separate index := by
  refine ⟨?_, fun table _ reserved => table_of_validated validated table reserved,
    validate_of_validated validated, fun later continued => ?_⟩
  · obtain ⟨scan, scanned, reconciled, adopted⟩ := validate_ok validated
    obtain ⟨tiles, guarded⟩ := scan_ok scanned
    refine ⟨scan, scanned, reconciled.spans, ?_, ?_⟩
    · rw [adopted, adoptReport_endOfFile, reconciled.endOfFile]
      exact tiles
    · rw [adopted]
      exact guarded
  · have placed := (placed_of_validated validated).continued continued
    exact ⟨fun _ _ _ => placed.separate_newEntry, fun _ _ _ _ _ => placed.separate_appendEntry⟩

theorem layout_of_misplaced_slots :
    ∃ report repaired, validate { ((create {}).newEntry 5).2 with
        slots := [.unused, .live ⟨0x300, 4, 16⟩, .free ⟨0x238, 20, 48⟩ true]
        tableIndex := some 1, endOfFile := 0x999 } = (.ok report, repaired) ∧
      report.demoted = [1] ∧ report.capacityFixed = [2] ∧
        repaired.slots = [.unused, .unused, .free ⟨0x238, 16, 16⟩ true] ∧
          ∃ again, repaired.validate = (.ok again, repaired) ∧ again.isClean = true := by
  have reached : Reachable ((create {}).newEntry 5).2 :=
    .step (reachable_create (by decide +kernel)) (.newEntry 5) rfl
  have spans : SlotTable.spans ((create {}).newEntry 5).2.slots = [⟨0x238, 16⟩] := by decide +kernel
  have stop : ((create {}).newEntry 5).2.endOfFile = 0x258 := by decide +kernel
  have short : ((create {}).newEntry 5).2.slots.length ≠ SlotTable.indexLimit := by decide +kernel
  generalize ((create {}).newEntry 5).2 = container at *
  obtain ⟨lost, laid, full⟩ := reached.sound.laid
  have none : lost = [] := not_not.mp fun some => short (full some)
  obtain ⟨order, same, scanned⟩ := laid.scan
  rw [none, spans] at same
  rw [List.perm_singleton.mp same, List.map_singleton, stop] at scanned
  have reconciled : ∃ report slots, reconcile
      [.unused, .live ⟨0x300, 4, 16⟩, .free ⟨0x238, 20, 48⟩ true]
      ⟨[Span.scanned container.file ⟨0x238, 16⟩], 0x258 - 8⟩ = (.ok report, slots) ∧
        report.demoted = [1] ∧ report.capacityFixed = [2] ∧
          slots = [.unused, .unused, .free ⟨0x238, 16, 16⟩ true] := by
    simp [reconcile, distinctRegions, settle, orphans, recoverRegions, SlotState.isUnused,
      SlotState.region?, Span.scanned, SlotState.mapRegion, Region.adopt]
  obtain ⟨report, slots, reconciled, demoted, fixed, left⟩ := reconciled
  have validated := @validate_of_reconcile { container with
    slots := [.unused, .live ⟨0x300, 4, 16⟩, .free ⟨0x238, 20, 48⟩ true]
    tableIndex := some 1, endOfFile := 0x999 } _ _ _ scanned reconciled
  obtain ⟨again, still, clean, _⟩ := (layout_of_validated validated).2.2.1
  exact ⟨report, _, validated, demoted, fixed, left, again, still, clean⟩

end Container

end SlotStore
