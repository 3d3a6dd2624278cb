import SlotStore.Proofs.Blocks
import SlotStore.Proofs.Container.Crash
import SlotStore.Proofs.Container.Opening
import SlotStore.Proofs.RepairReport

/-!
Loader and scan agree. The loader looks at the guard words of the regions that slots name, wherever
these lie, and the scan at those that it comes to one after another. Of a region that both have seen
they say the same, so a validation right after opening resizes nothing and demotes just the slots whose
regions the scan has not come to.
-/

namespace SlotStore

/-- A grounded slot and a scanned region that start at one offset say the same of the words there. -/
theorem SlotState.Grounded.agrees {file : File} {state : SlotState} {region : Region}
    (grounded : state.Grounded file region) {scan : Scan} (scanned : Scan.ofFile file = .ok scan)
    {found : ScannedRegion} (member : found ∈ scan.regions) (same : found.offset = region.offset) :
    found.capacity = region.capacity ∧ (state.isLive = true ↔ found.live = true) := by
  obtain ⟨_, _, guarded, _⟩ := (scan_ok scanned).2 found member
  have signed := grounded.signed
  have word := grounded.guarded.1
  simp only [ScannedRegion.span, Region.span, Region.leadingGuard] at guarded signed word
  rw [same] at guarded
  refine ⟨guarded.symm.trans word, ?_⟩
  rw [live_of_scan scanned found member, same, decide_eq_true_iff]
  exact signed.symm

namespace Container

variable {container opened : Container} {file after : File} {scan : Scan}

/-- Where slots are grounded, a scan leaves those alone whose regions it has found. -/
theorem Grounded.settled (grounded : container.Grounded)
    (scanned : Scan.ofFile container.file = .ok scan) {state : SlotState} {region : Region}
    (member : state ∈ container.slots) (held : state.region? = some region)
    {found : ScannedRegion} (listed : found ∈ scan.regions) (same : found.offset = region.offset) :
    state.settled scan.regions = state := by
  obtain ⟨capacity, _⟩ := (grounded.held state member region held).agrees scanned listed same
  have sought : scan.regions.find? (·.offset == region.offset) = some found :=
    (find?_eq_some_iff_of_distinct (distinct_of_scan scanned)).mpr ⟨listed, same⟩
  have kept : region.adopt found = region := if_pos capacity.symm
  rw [SlotState.settled_of_found held sought]
  cases state with
  | unused => rfl
  | live own =>
    cases held
    exact congrArg SlotState.live kept
  | free own deletable =>
    cases held
    exact congrArg (SlotState.free · deletable) kept

/-- Over grounded slots a validation fails only where the indices do not suffice for the regions that no
slot holds. -/
theorem Grounded.validate_cases (grounded : container.Grounded)
    (scanned : Scan.ofFile container.file = .ok scan) :
    (container.slots.length + (container.slots.unheld scan.regions).length ≤ SlotTable.indexLimit →
      ∃ report slots, reconcile container.slots scan = (.ok report, slots) ∧
        container.validate = (.ok report, container.adoptReport report slots)) ∧
      (SlotTable.indexLimit <
          container.slots.length + (container.slots.unheld scan.regions).length →
        container.validate.1 = .error (.overflow .slotIndices)) := by
  have distinct := distinct_of_scan scanned
  have unshared := grounded.distinct.sublist (keptOffsets_sublist scan.regions container.slots)
  rw [← (leftover_perm scan.regions container.slots).length_eq]
  constructor
  · intro room
    obtain ⟨report, slots, reconciled⟩ :=
      reconcile_of_unshared grounded.sentinel distinct unshared room
    exact ⟨report, slots, reconciled, validate_of_reconcile scanned reconciled⟩
  · intro excess
    have refused := reconcile_of_excess grounded.sentinel distinct unshared
      (Nat.le_of_lt grounded.limited) excess
    rcases outcome : reconcile container.slots scan with ⟨fault | report, slots⟩
    · rw [outcome] at refused
      cases refused
      unfold validate
      simp only [scanned, outcome]
    · rw [outcome] at refused
      cases refused

/-- Whatever is opened without a validation is grounded, and its file is scanned as the one that was
given: an empty one only gets a header and a zero word. -/
theorem grounded_of_opened {settings : ContainerSettings} (quiet : settings.validateOnOpen = false)
    (accepted : openFile file settings = (.ok opened, after)) :
    opened.Grounded ∧ Scan.ofFile opened.file = Scan.ofFile file := by
  by_cases empty : file.size = 0
  · obtain ⟨legal, ⟨_, rfl⟩ | ⟨loaded, found⟩⟩ := openFile_ok accepted
    · obtain ⟨_, laid, _⟩ := (sound_create settings).laid
      have ended : Ends ((create settings).file.toList.drop firstGuard) :=
        File.ends_drop_iff.mpr (Or.inr laid.ended)
      have none : Ends (file.toList.drop firstGuard) :=
        Or.inl (by rw [File.length_drop]; omega)
      refine ⟨grounded_of_unlisted rfl rfl rfl rfl, ?_⟩
      rw [Scan.ofFile, Scan.ofFile, Scan.walk_of_ends ended, Scan.walk_of_ends none]
    · unfold load at found
      rw [if_pos (by rw [empty]; decide)] at found
      cases found
  · obtain ⟨grounded, rfl, _⟩ := load_ok (load_of_opened empty quiet accepted)
    exact ⟨grounded, rfl⟩

/-- Loader and scan agree. In a file that is opened without a validation and that can be scanned, a slot
at a scanned region has the capacity that the scan found and is live where the scan says so. A
validation right after opening succeeds as long as there are indices for the regions that no slot
holds, and fails only where there are not; it resizes no slot, demotes those whose regions were not
found and leaves the others as they are. -/
theorem agreement_of_opened {settings : ContainerSettings} (quiet : settings.validateOnOpen = false)
    (accepted : openFile file settings = (.ok opened, after))
    (scanned : Scan.ofFile file = .ok scan) :
    (∀ (index : Nat) (state : SlotState) (region : Region), opened.slots[index]? = some state →
      state.region? = some region → ∀ found ∈ scan.regions, found.offset = region.offset →
        found.capacity = region.capacity ∧ (state.isLive = true ↔ found.live = true)) ∧
      (opened.slots.length + (opened.slots.unheld scan.regions).length ≤ SlotTable.indexLimit →
        ∃ report repaired, opened.validate = (.ok report, repaired) ∧ report.capacityFixed = [] ∧
          report.demoted.Pairwise (· < ·) ∧
          (∀ index, index ∈ report.demoted ↔ ∃ state region, opened.slots[index]? = some state ∧
            state.region? = some region ∧ ∀ found ∈ scan.regions, found.offset ≠ region.offset) ∧
          ∀ (index : Nat) (state : SlotState) (region : Region), opened.slots[index]? = some state →
            state.region? = some region →
              (∃ found ∈ scan.regions, found.offset = region.offset) →
                repaired.slots[index]? = some state) ∧
      (SlotTable.indexLimit < opened.slots.length + (opened.slots.unheld scan.regions).length →
        opened.validate.1 = .error (.overflow .slotIndices)) := by
  obtain ⟨grounded, same⟩ := grounded_of_opened quiet accepted
  rw [← same] at scanned
  obtain ⟨succeeds, fails⟩ := grounded.validate_cases scanned
  have agrees {index : Nat} {state : SlotState} {region : Region}
      (here : opened.slots[index]? = some state) (held : state.region? = some region)
      {found : ScannedRegion} (listed : found ∈ scan.regions) (same : found.offset = region.offset) :=
    (grounded.held state (List.mem_of_getElem? here) region held).agrees scanned listed same
  refine ⟨fun index state region here held found listed same => agrees here held listed same,
    fun room => ?_, fails⟩
  obtain ⟨report, slots, reconciled, validated⟩ := succeeds room
  have distinct := distinct_of_scan scanned
  have repaired := repaired_of_ok reconciled distinct
  obtain ⟨_, _, grown, _⟩ := reconcile_ok reconciled distinct
  refine ⟨report, _, validated, ?_, repaired.demoted.1, repaired.demoted.2, ?_⟩
  · refine List.eq_nil_iff_forall_not_mem.mpr fun index fixed => ?_
    obtain ⟨state, region, here, held, found, listed, start, other⟩ :=
      (repaired.resized.2 index).mp fixed
    exact other (agrees here held listed start).1
  · rintro index state region here held ⟨found, listed, start⟩
    have kept := getElem?_of_settled grown here
    rw [grounded.settled scanned (List.mem_of_getElem? here) held listed start] at kept
    exact kept

theorem regionState_of_block {block : Block} {pos : Nat} {offset size : UInt64}
    (here : block.bytes <+: file.toList.drop pos) (aligned : pos % granule = 0)
    (start : offset.toNat = pos + 8) (positive : 0 < block.guard)
    (fits : size.toNat ≤ block.guard.natAbs) :
    regionState file ⟨offset, size⟩ = .ok (.live ⟨pos + 8, size.toNat, block.guard.natAbs⟩) := by
  obtain ⟨leading, within, trailing⟩ := File.guards_of_block here
  have legal : ¬ (block.guard = 0 ∨ block.guard.natAbs % granule ≠ 0 ∨ pos % granule ≠ 0) := by
    rw [block.whole, aligned]
    simp [block.nonzero]
  simp only [regionState, start, Nat.add_sub_cancel, leading, trailing]
  rw [if_neg (by omega), if_neg legal, if_neg (by omega), if_neg (by simp), if_neg (by omega),
    if_pos positive]

/-- The sixteen bytes and the words around them that the first region imitates. -/
def imitated : Block := ⟨16, Bytes.zeros 16, by decide, by decide, by decide, rfl⟩

/-- A live region that holds what looks like another one. -/
def imitating : Block :=
  ⟨64, Bytes.zeros 8 ++ imitated.bytes ++ Bytes.zeros 24, by decide, by decide, by decide, rfl⟩

def rowsOfImitated : List SlotRecord := [⟨0, 0⟩, ⟨0x238, 64⟩, ⟨0x248, 3⟩, ⟨0x288, 64⟩]

/-- A slot table with one slot for that region, one for what it holds and one for the table. -/
def tableOfImitated : Block :=
  ⟨64, rowsOfImitated.flatMap SlotRecord.encode, by decide, by decide, by decide, rfl⟩

def headerOfImitated : Header :=
  { Header.fresh with endOfFile := 0x2d8, tableOffset := 0x288, slotCount := 4 }

def fileOfImitated : File :=
  .ofBytes (headerOfImitated.encode ++
    (blockBytes [imitating, tableOfImitated] ++ Bytes.zeros 8))

def openedOfImitated : Container where
  file := fileOfImitated
  slots := [.unused, .live ⟨0x238, 64, 64⟩, .live ⟨0x248, 3, 16⟩, .live ⟨0x288, 64, 64⟩]
  tableIndex := some 3
  root := none
  endOfFile := 0x2d8
  tableOffset := 0x288
  recordedSlots := 4
  dirty := false
  appendInFlight := false
  settings := {}

theorem drop_fileOfImitated {pos : Nat} (behind : Header.width ≤ pos) :
    fileOfImitated.toList.drop pos =
      (blockBytes [imitating, tableOfImitated] ++ Bytes.zeros 8).drop (pos - Header.width) := by
  obtain ⟨count, rfl⟩ := Nat.exists_eq_add_of_le behind
  rw [Nat.add_sub_cancel_left, fileOfImitated, File.toList_ofBytes,
    ← Header.length_encode headerOfImitated, List.drop_length_add_append]

theorem size_fileOfImitated : fileOfImitated.size = 0x2d8 := by
  rw [fileOfImitated, ← File.length_toList, File.toList_ofBytes, List.length_append,
    Header.length_encode]
  decide +kernel

theorem load_fileOfImitated : load fileOfImitated {} = .ok openedOfImitated := by
  have legal : headerOfImitated.check = .ok () := by decide +kernel
  have rows : recordedRows fileOfImitated headerOfImitated = .ok rowsOfImitated := by
    have stored : fileOfImitated.slice 0x288 (4 * SlotRecord.width) = tableOfImitated.body := by
      rw [File.toList_slice, drop_fileOfImitated (by decide)]
      decide +kernel
    have count : headerOfImitated.slotCount.toNat = 4 := rfl
    have offset : headerOfImitated.tableOffset.toNat = 0x288 := rfl
    have inside : ¬ (0x288 < firstOffset ∨ fileOfImitated.size < 0x288 + 4 * SlotRecord.width) := by
      rw [size_fileOfImitated]
      decide
    simp only [recordedRows, count, offset, if_neg inside, stored]
    decide +kernel
  have states : slotStates fileOfImitated 0 [] rowsOfImitated = .ok openedOfImitated.slots := by
    have outer : imitating.bytes <+: fileOfImitated.toList.drop 0x230 := by
      rw [drop_fileOfImitated (by decide)]
      decide +kernel
    have inner : imitated.bytes <+: fileOfImitated.toList.drop 0x240 := by
      rw [drop_fileOfImitated (by decide)]
      decide +kernel
    have table : tableOfImitated.bytes <+: fileOfImitated.toList.drop 0x280 := by
      rw [drop_fileOfImitated (by decide)]
      decide +kernel
    have outer : regionState fileOfImitated ⟨0x238, 64⟩ = .ok (.live ⟨0x238, 64, 64⟩) :=
      regionState_of_block outer rfl rfl (by decide) (by decide)
    have inner : regionState fileOfImitated ⟨0x248, 3⟩ = .ok (.live ⟨0x248, 3, 16⟩) :=
      regionState_of_block inner rfl rfl (by decide) (by decide)
    have table : regionState fileOfImitated ⟨0x288, 64⟩ = .ok (.live ⟨0x288, 64, 64⟩) :=
      regionState_of_block table rfl rfl (by decide) (by decide)
    simp [rowsOfImitated, slotStates, outer, inner, table, firstOffset, Except.map, openedOfImitated]
  rw [fileOfImitated, load_ofBytes legal, ← fileOfImitated]
  unfold ofHeader
  simp only [rows, states]
  rfl

/-- The slot inside the first region is accepted on opening, and validation demotes it alone. -/
theorem agreement_of_imitated_guards :
    openFile fileOfImitated {} = (.ok openedOfImitated, fileOfImitated) ∧
      Scan.ofFile fileOfImitated = .ok ⟨[⟨0x238, 64, true⟩, ⟨0x288, 64, true⟩], 0x2d0⟩ ∧
        ∃ report repaired, openedOfImitated.validate = (.ok report, repaired) ∧
          report.capacityFixed = [] ∧ 2 ∈ report.demoted ∧ 1 ∉ report.demoted ∧
            repaired.slots[1]? = some (.live ⟨0x238, 64, 64⟩) := by
  have filled : fileOfImitated.size ≠ 0 := by
    rw [size_fileOfImitated]
    decide
  have accepted : openFile fileOfImitated {} = (.ok openedOfImitated, fileOfImitated) :=
    openFile_of_load (by decide +kernel) rfl filled load_fileOfImitated rfl
  have scanned : Scan.ofFile fileOfImitated = .ok ⟨[⟨0x238, 64, true⟩, ⟨0x288, 64, true⟩], 0x2d0⟩ :=
    Scan.ofFile_ok_iff.mpr ⟨[imitating, tableOfImitated], Bytes.zeros 8,
      drop_fileOfImitated (Nat.le_refl _), Or.inr rfl, by decide +kernel⟩
  obtain ⟨_, succeeds, _⟩ := agreement_of_opened rfl accepted scanned
  obtain ⟨report, repaired, validated, fixed, _, demoted, kept⟩ := succeeds (by decide +kernel)
  refine ⟨accepted, scanned, report, repaired, validated, fixed, ?_, ?_, ?_⟩
  · exact (demoted 2).mpr ⟨_, _, rfl, rfl, by decide +kernel⟩
  · intro member
    obtain ⟨state, region, here, held, lost⟩ := (demoted 1).mp member
    cases here
    cases held
    exact lost _ (List.mem_cons_self ..) rfl
  · exact kept 1 _ _ rfl rfl ⟨_, List.mem_cons_self .., rfl⟩

/-- A file can be accepted and scanned and have more regions than there are indices for them. -/
theorem agreement_of_exhausted_indices_fails : ∃ file opened scan,
    openFile file {} = (.ok opened, file) ∧ Scan.ofFile file = .ok scan ∧
      opened.validate.1 = .error (.overflow .slotIndices) := by
  obtain ⟨opened, scan, accepted, scanned, refused⟩ := @openFile_of_full 0xffffffff rfl
  exact ⟨_, opened, scan, accepted, scanned, refused⟩

end Container

end SlotStore
