import SlotStore.Proofs.Container.Exhaustion

/-!
A crash between two flushes. The file still holds header, slot table and guard words as they were
last stored, so opening it gives the stored slots back. The regions that were appended since lie
behind them, and validation recovers all of them as free slots.
-/

namespace SlotStore.Container

variable {container : Container} {lost : List Span}

theorem mem_spans_of_shape {slots : SlotTable} {index : Nat} {span : Span}
    (found : slots.shape[index]? = some (some span)) :
    ∃ state region, slots[index]? = some state ∧ state.region? = some region ∧
      region.span = span := by
  rw [SlotTable.getElem?_shape] at found
  obtain ⟨state, here, held⟩ := Option.map_eq_some_iff.mp found
  obtain ⟨region, holds, same⟩ := Option.map_eq_some_iff.mp held
  exact ⟨state, region, here, holds, same⟩

theorem clear_header (laid : Laid container.file container.slots lost container.endOfFile) :
    container.Clear 0 Header.width := by
  have first := laid.first_le
  have width : Header.width = 560 := rfl
  simp only [firstOffset] at first
  refine ⟨by omega, fun index span found _ => ?_⟩
  obtain ⟨state, region, here, held, rfl⟩ := mem_spans_of_shape found
  have low := (laid.within (laid.mem here held)).1
  simp only [firstOffset] at low
  exact Or.inl (by omega)

theorem clear_table (laid : Laid container.file container.slots lost container.endOfFile)
    {index : Nat} {region : Region} (reserved : container.tableIndex = some index)
    (here : container.slots[index]? = some (.live region)) {count : Nat}
    (fits : count ≤ region.capacity) : container.Clear region.offset count := by
  have high := (laid.within (laid.mem here rfl)).2
  simp only [Span.next, Region.span] at high
  refine ⟨by omega, fun other span found user => ?_⟩
  obtain ⟨state, own, there, held, rfl⟩ := mem_spans_of_shape found
  have different : index ≠ other := fun same => user (same ▸ reserved)
  have apart := laid.apart here rfl there held different
  simp only [Span.Apart, Span.next, Region.span] at apart ⊢
  omega

theorem clear_guards (laid : Laid container.file container.slots lost container.endOfFile)
    {index : Nat} {state : SlotState} {region : Region} (here : container.slots[index]? = some state)
    (held : state.region? = some region) :
    container.Clear region.leadingGuard 8 ∧ container.Clear region.trailingGuard 8 := by
  have member := laid.mem here held
  obtain ⟨low, high⟩ := laid.within member
  simp only [firstOffset, Span.next, Region.span] at low high
  refine ⟨⟨?_, fun other span found _ => ?_⟩, ⟨?_, fun other span found _ => ?_⟩⟩
  · simp only [Region.leadingGuard]
    omega
  · obtain ⟨_, own, there, ownHeld, rfl⟩ := mem_spans_of_shape found
    have outside := laid.leading_outside member (laid.mem there ownHeld)
    simp only [Region.leadingGuard]
    simp only [Region.span] at outside ⊢
    omega
  · simp only [Region.trailingGuard]
    omega
  · obtain ⟨_, own, there, ownHeld, rfl⟩ := mem_spans_of_shape found
    exact laid.trailing_outside member (laid.mem there ownHeld)

theorem Saved.untouched (saved : container.Saved)
    (laid : Laid container.file container.slots lost container.endOfFile) {file : File}
    (same : ∀ pos count, container.Clear pos count →
      file.slice pos count = container.file.slice pos count) :
    Saved { container with file := file } := by
  obtain ⟨index, region, reserved, here, offset, fits, stored⟩ := saved.table
  exact {
    header := (same _ _ (clear_header laid)).trans saved.header
    table := ⟨index, region, reserved, here, offset, fits,
      (same _ _ (clear_table laid reserved here fits)).trans stored⟩
    counted := saved.counted
    limited := saved.limited
    signed := by
      intro state member own guard held word
      obtain ⟨position, found⟩ := List.mem_iff_getElem?.mp member
      obtain ⟨leading, trailing⟩ := clear_guards laid found held
      obtain ⟨leadingWord, trailingWord⟩ := saved.signed state member own guard held word
      exact ⟨(congrArg Bytes.toInt (same _ _ leading)).trans leadingWord,
        (congrArg Bytes.toInt (same _ _ trailing)).trans trailingWord⟩ }

/-- The file gives the container back: nothing is unsaved and the root is not the table's own slot,
or the container is a new one. -/
def Restorable (container : Container) : Prop :=
  container.dirty = false ∧
      (∀ index, container.tableIndex = some index → container.root ≠ some index) ∨
    ∃ settings, container = create settings

theorem restorable_of_rootless (clean : container.dirty = false) (rootless : container.root = none) :
    container.Restorable := by
  refine Or.inl ⟨clean, fun index _ anchored => ?_⟩
  rw [rootless] at anchored
  cases anchored

variable {base now : Container}

theorem laid_of_restorable (sound : base.Sound) (restorable : base.Restorable) :
    Laid base.file base.slots [] base.endOfFile := by
  rcases restorable with ⟨clean, _⟩ | ⟨settings, rfl⟩
  · obtain ⟨lost, laid, full⟩ := sound.laid
    have limited := (sound.saved clean).limited
    by_cases kept : lost = []
    · exact kept ▸ laid
    · exact absurd (full kept) (Nat.ne_of_lt limited)
  · exact laid_create settings

theorem header_create (settings : ContainerSettings) :
    (create settings).file.slice 0 Header.width = (create settings).header.encode := by
  have first : (File.empty.write 0 Header.fresh.encode).slice 0 Header.width =
      Header.fresh.encode := by
    have written := File.slice_write_self File.empty 0 Header.fresh.encode
    rwa [Header.length_encode] at written
  have filled : Header.fresh.encode ≠ [] := by
    intro empty
    have length := Header.length_encode Header.fresh
    rw [empty] at length
    cases length
  have reached := File.end_le_write File.empty 0 Header.fresh.encode filled
  rw [Header.length_encode] at reached
  have kept : (create settings).file.slice 0 Header.width =
      (File.empty.write 0 Header.fresh.encode).slice 0 Header.width :=
    File.slice_write_of_disjoint _ firstGuard (Bytes.ofInt 0) 0 Header.width
      (Or.inl ⟨by decide, by omega⟩)
  exact kept.trans first

/-- The file of a stored container is loaded as it was stored, also after other regions were
appended, as long as the clear stretches are kept. -/
theorem load_of_restorable (sound : base.Sound) (restorable : base.Restorable) {file : File}
    (same : ∀ pos count, base.Clear pos count → file.slice pos count = base.file.slice pos count)
    {left : List Span} {stop : Nat} (laid : Laid file base.slots left stop)
    (settings : ContainerSettings) :
    load file settings = .ok ({ base with file := file }.reloaded settings) := by
  have stored := laid_of_restorable sound restorable
  rcases restorable with ⟨clean, user⟩ | ⟨fresh, rfl⟩
  · have saved := (sound.saved clean).untouched stored same
    exact load_of_user_root saved laid sound.ended sound.root user settings
  · have header := (same _ _ (clear_header stored)).trans (header_create fresh)
    have held := laid.held
    have first := laid.first_le
    have width : Header.width = 560 := rfl
    simp only [firstOffset] at first
    unfold load
    rw [if_neg (by omega), decode_header header sound.ended]
    rfl

/-- The regions of a later container lie in its file behind those that were stored. -/
theorem Advances.laid_base {recorded lost : List Span}
    (advances : Advances base now recorded lost)
    (laid : Laid base.file base.slots [] base.endOfFile) :
    Laid now.file base.slots (recorded ++ lost) now.endOfFile :=
  (advances.laid [] laid).truncate laid.sentinel laid.sized advances.shape

/-- What a file gives back that was left between two flushes: the stored slots, with the regions that
were appended since behind them. Those have the slots that the later container added to its table, and
a region without a slot is only left behind where every index was taken. -/
structure Survives (base now : Container) (recorded lost : List Span) (opened : Container) :
    Prop where
  slots : opened.slots = base.slots.map SlotState.unmarked
  endOfFile : opened.endOfFile = base.endOfFile
  tableIndex : opened.tableIndex = base.tableIndex
  root : opened.root = base.root
  shape : SlotTable.shape now.slots = SlotTable.shape base.slots ++ recorded.map some
  tiles : Tiles base.endOfFile (recorded ++ lost) now.endOfFile
  full : lost ≠ [] → now.slots.length = SlotTable.indexLimit

theorem Unstored.load (reached : Reachable base) (restorable : base.Restorable)
    (run : Unstored base now) (settings : ContainerSettings) : ∃ opened recorded lost,
      Survives base now recorded lost opened ∧
        Container.load now.file settings = .ok opened ∧ opened.file = now.file ∧
          Laid opened.file opened.slots (recorded ++ lost) now.endOfFile ∧
            now.slots.length ≤ SlotTable.indexLimit := by
  obtain ⟨_, grown⟩ := run.grows reached.sound reached.filled
  obtain ⟨recorded, lost, advances⟩ := grown.advances
  have laid := advances.laid_base (laid_of_restorable reached.sound restorable)
  have found := load_of_restorable reached.sound restorable
    (fun pos count clear => (grown.untouched pos count clear).2) laid settings
  refine ⟨_, recorded, lost, ?_, found, rfl, laid_unmarked laid, advances.limited⟩
  exact ⟨rfl, rfl, rfl, rfl, advances.shape, advances.tiles, advances.full⟩

/-- A crash between two flushes. From a container that was stored, and whose root is not the table's
own slot, or from a new one, let operations run that store nothing. Then the file can be opened and
gives the stored slots back. Validation changes none of them; it recovers the regions that were
appended since, in the order of their offsets, as free slots behind the table, and ends the file
behind the last one. Settings that ask for validation have it done on opening. Where the run itself was
refused a region for want of an index there are not enough indices for what it left behind, and
validation is refused. -/
theorem recovery_of_crash (reached : Reachable base) (restorable : base.Restorable)
    (run : Unstored base now) {settings : ContainerSettings} (legal : settings.check = .ok ()) :
    ∃ opened recorded lost, Survives base now recorded lost opened ∧
      (settings.validateOnOpen = false → openFile now.file settings = (.ok opened, now.file)) ∧
      (lost = [] → ∃ report repaired,
        Regained opened recorded now.endOfFile report repaired ∧
          (settings.validateOnOpen = true →
            openFile now.file settings = (.ok repaired, now.file))) ∧
      (lost ≠ [] → opened.validate.1 = .error (.overflow .slotIndices) ∧
        (settings.validateOnOpen = true →
          (openFile now.file settings).1 = .error (.overflow .slotIndices))) := by
  obtain ⟨opened, recorded, lost, survives, found, same, laid, limited⟩ :=
    run.load reached restorable settings
  have filled : now.file.size ≠ 0 := same ▸ laid.size_ne_zero
  have longer := SlotTable.length_of_shape_append survives.shape
  have length : opened.slots.length = base.slots.length := by
    rw [survives.slots, List.length_map]
  refine ⟨opened, recorded, lost, survives,
    fun quiet => openFile_of_load legal quiet filled found same, ?_, ?_⟩
  · rintro rfl
    rw [List.append_nil] at laid
    have placed := survives.tiles.pairwise
    rw [List.append_nil] at placed
    obtain ⟨report, repaired, regained⟩ := validate_of_lost laid placed (by omega)
    refine ⟨report, repaired, regained, fun eager => ?_⟩
    rw [openFile_of_validated legal eager filled found regained.validated, regained.file, same]
  · intro some
    have full := survives.full some
    have positive := List.length_pos_iff.mpr some
    have failed := validate_of_excess laid survives.tiles.pairwise (by omega)
      (by rw [List.length_append]; omega)
    exact ⟨failed, fun eager => openFile_of_validate_error legal eager filled found failed⟩

theorem recovery_of_second_entry :
    ((create {}).newEntry 5).2.flush.2.Restorable ∧
      ∃ opened report repaired, openFile (((create {}).newEntry 5).2.flush.2.newEntry 5).2.file {} =
          (.ok opened, (((create {}).newEntry 5).2.flush.2.newEntry 5).2.file) ∧
        opened.validate = (.ok report, repaired) ∧ report.recovered = [3] := by
  have legal : ContainerSettings.check {} = .ok () := by decide +kernel
  have reached : Reachable ((create {}).newEntry 5).2.flush.2 :=
    .step (.step (reachable_create legal) (.newEntry 5) rfl) .flush rfl
  have restorable : ((create {}).newEntry 5).2.flush.2.Restorable :=
    restorable_of_rootless (by decide +kernel) (by decide +kernel)
  have before : ((create {}).newEntry 5).2.flush.2.slots.length = 3 := by decide +kernel
  have after : (((create {}).newEntry 5).2.flush.2.newEntry 5).2.slots.length = 4 := by
    decide +kernel
  obtain ⟨opened, recorded, lost, survives, accepted, repair, _⟩ :=
    recovery_of_crash reached restorable (.step .start (.newEntry 5) rfl id) legal
  have length := SlotTable.length_of_shape_append survives.shape
  rw [before, after] at length
  have kept : lost = [] := by
    by_contra some
    have full := survives.full some
    rw [after] at full
    cases full
  obtain ⟨report, repaired, regained, _⟩ := repair kept
  have recovered := regained.recovered
  rw [survives.slots, List.length_map, before, show recorded.length = 1 by omega] at recovered
  exact ⟨restorable, opened, report, repaired, accepted rfl, regained.validated, recovered⟩

/-- After as many allocations as there are slot indices a file can be opened and scanned, but the
indices do not suffice for the regions in it. -/
theorem openFile_of_full {count : Nat} (full : count + 1 = SlotTable.indexLimit) :
    ∃ opened scan, openFile (allocated (count + 1)).file {} =
        (.ok opened, (allocated (count + 1)).file) ∧
      Scan.ofFile (allocated (count + 1)).file = .ok scan ∧
        opened.validate.1 = .error (.overflow .slotIndices) := by
  have legal : ContainerSettings.check {} = .ok () := by decide +kernel
  obtain ⟨opened, recorded, lost, survives, found, same, laid, limited⟩ :=
    (unstored_allocated (count + 1)).load (reachable_create legal) (Or.inr ⟨{}, rfl⟩) {}
  have some : lost ≠ [] := by
    rintro rfl
    have spans : (allocated (count + 1)).slots.spans = recorded :=
      SlotTable.spans_eq_append survives.shape
    have tiles := survives.tiles
    rw [List.append_nil] at tiles
    exact not_tiled_of_full full ⟨recorded, List.Perm.of_eq spans.symm, tiles⟩
  have positive := List.length_pos_iff.mpr some
  have taken := survives.full some
  have longer := SlotTable.length_of_shape_append survives.shape
  have length : opened.slots.length = (create {}).slots.length := by
    rw [survives.slots, List.length_map]
  have filled : (allocated (count + 1)).file.size ≠ 0 := same ▸ laid.size_ne_zero
  obtain ⟨_, _, scanned⟩ := laid.scan
  exact ⟨opened, _, openFile_of_load legal rfl filled found same, same ▸ scanned,
    validate_of_excess laid survives.tiles.pairwise (by omega) (by rw [List.length_append]; omega)⟩

/-- What is left of a run that was refused a region for want of an index is not recovered. -/
theorem recovery_of_exhausted_indices_fails : ∃ base now, Reachable base ∧ base.Restorable ∧
    Unstored base now ∧ ∃ opened, openFile now.file {} = (.ok opened, now.file) ∧
      opened.validate.1 = .error (.overflow .slotIndices) := by
  obtain ⟨opened, _, accepted, _, refused⟩ := @openFile_of_full 0xffffffff rfl
  exact ⟨create {}, _, reachable_create (by decide +kernel), Or.inr ⟨{}, rfl⟩,
    unstored_allocated _, opened, accepted, refused⟩

end SlotStore.Container
