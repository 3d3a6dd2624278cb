import SlotStore.Proofs.Container.Mixture
import SlotStore.Proofs.Container.Sealing

/-!
A flush that is cut off between two of its steps: before the slot records, behind them, or behind
the guard words and before the header. The old header then points at a table whose records and whose
guard words may come from different containers. Where the table kept its place, or there was none,
the file can be opened, and validation gives every region of the table to one slot. Where the table
moved, the guard words say that its old slot is free, and once they are written the file is refused.
-/

namespace SlotStore.Container

variable {base sealed : Container}

/-- The file of a flush that is cut off behind the slot records. -/
def afterRecords (sealed : Container) : File := sealed.file.writeAll [sealed.recordWrite]

/-- The file of a flush that is cut off behind the guard words, before the header. -/
def afterGuards (sealed : Container) : File :=
  sealed.file.writeAll (sealed.recordWrite :: sealed.guardWrites)

theorem writeAll_flushWrites (sealed : Container) :
    sealed.file.writeAll sealed.flushWrites =
      sealed.afterGuards.write 0 sealed.header.encode := by
  unfold flushWrites afterGuards
  rw [File.writeAll_append]
  rfl

section

variable {index : Nat} {region : Region} {lost : List Span}

theorem agrees_afterRecords (ready : sealed.Sealed index region) :
    File.AgreesOutside region.offset (region.offset + region.capacity) sealed.file
      sealed.afterRecords := by
  obtain ⟨start, length⟩ := ready.recordWrite_bounds
  have fits := ready.fits
  exact File.AgreesOutside.write sealed.file (by omega) (by omega)

theorem slice_afterRecords (ready : sealed.Sealed index region) :
    sealed.afterRecords.slice region.offset (sealed.slots.length * SlotRecord.width) =
      sealed.records.flatMap SlotRecord.encode := by
  obtain ⟨start, length⟩ := ready.recordWrite_bounds
  have written := File.slice_write_self sealed.file sealed.recordWrite.1 sealed.recordWrite.2
  rw [length] at written
  rw [← start]
  exact written

theorem laid_afterRecords
    (laid : Laid sealed.file sealed.slots lost sealed.endOfFile)
    (ready : sealed.Sealed index region) :
    Laid sealed.afterRecords sealed.slots lost sealed.endOfFile :=
  laid.fill (laid.mem ready.here rfl) (agrees_afterRecords ready)

theorem slice_afterGuards {pos : Nat} (behind : Header.width ≤ pos) (count : Nat) :
    sealed.afterGuards.slice pos count =
      (sealed.file.writeAll sealed.flushWrites).slice pos count := by
  have length : sealed.header.encode.length = Header.width := Header.length_encode _
  rw [writeAll_flushWrites]
  exact (File.slice_write_of_disjoint _ _ _ _ _ (Or.inr (by omega))).symm

theorem intAt_afterGuards {pos : Nat} (behind : Header.width ≤ pos) :
    sealed.afterGuards.intAt pos = (sealed.file.writeAll sealed.flushWrites).intAt pos :=
  congrArg Bytes.toInt (slice_afterGuards behind 8)

/-- Up to the end of the header the file is the one that the flush started with. -/
theorem front_afterGuards (laid : Laid sealed.file sealed.slots lost sealed.endOfFile)
    (ready : sealed.Sealed index region) {pos count : Nat} (front : pos + count ≤ Header.width) :
    sealed.afterGuards.slice pos count = sealed.file.slice pos count := by
  have width : Header.width = 560 := rfl
  have first := laid.first_le
  have held := laid.held
  simp only [firstOffset] at first
  refine File.slice_writeAll_of_disjoint _ _ _ _ (by omega) fun step member => Or.inr ?_
  rcases List.mem_cons.mp member with rfl | guard
  · obtain ⟨start, _⟩ := ready.recordWrite_bounds
    have low := (laid.within (laid.mem ready.here rfl)).1
    simp only [firstOffset, Region.span] at low
    omega
  · have low := (guardWrite_bounds laid guard).2.1
    simp only [firstGuard] at low
    omega

/-- Bytes of another region than the table's are those that the flush started with. -/
theorem slice_afterGuards_of_apart (laid : Laid sealed.file sealed.slots lost sealed.endOfFile)
    (ready : sealed.Sealed index region) {own : Span} (member : own ∈ sealed.slots.spans ++ lost)
    (apart : region.span.Apart own) {count : Nat} (inside : count ≤ own.capacity) :
    sealed.afterGuards.slice own.offset count = sealed.file.slice own.offset count := by
  have width : Header.width = 560 := rfl
  have held := laid.held
  obtain ⟨low, high⟩ := laid.within member
  simp only [firstOffset, Span.next, Span.Apart, Region.span] at low high apart
  rw [slice_afterGuards (by omega)]
  refine (stored_flushWrites laid ready).clear _ _ (by omega) (by omega) (by omega) ?_
  intro step guard
  have outside := (guardWrite_bounds laid guard).2.2.2 own member
  omega

theorem laid_afterGuards (laid : Laid sealed.file sealed.slots lost sealed.endOfFile)
    (ready : sealed.Sealed index region) :
    Laid sealed.afterGuards sealed.slots lost sealed.endOfFile := by
  have width : Header.width = 560 := rfl
  have whole := (stored_flushWrites laid ready).laid laid ready
  have first := laid.first_le
  have held := laid.held
  have grown : sealed.file.size ≤ sealed.afterGuards.size := File.size_le_writeAll _ _
  simp only [firstOffset] at first
  have low {span : Span} (member : span ∈ sealed.slots.spans ++ lost) : 568 ≤ span.offset :=
    (laid.within member).1
  refine whole.withFile ?_ (fun span member => intAt_afterGuards ?_)
    (fun span member => intAt_afterGuards ?_) ?_
  · have length : sealed.header.encode.length = Header.width := Header.length_encode _
    rw [writeAll_flushWrites, File.size_write]
    split
    · exact Nat.le_refl _
    · omega
  · have := low member
    omega
  · have := low member
    omega
  · rw [intAt_afterGuards (by omega), whole.ended]

end

/-- The file can be opened, and validation then gives every region of a slot table to one slot, the
one that the table has it in. -/
def Recovers (file : File) (settings : ContainerSettings) (table : SlotTable) : Prop :=
  ∃ opened report repaired, openFile file settings = (.ok opened, file) ∧
    opened.validate = (.ok report, repaired) ∧
    ∀ (index : Nat) (span : Span), table.shape[index]? = some (some span) →
      ∀ other, (SlotTable.shape repaired.slots)[other]? = some (some span) ↔ other = index

theorem Recovers.shorten {file : File} {settings : ContainerSettings} {table longer : SlotTable}
    (recovers : Recovers file settings longer) (starts : table.shape <+: longer.shape) :
    Recovers file settings table := by
  obtain ⟨opened, report, repaired, accepted, validated, owned⟩ := recovers
  obtain ⟨behind, same⟩ := starts
  refine ⟨opened, report, repaired, accepted, validated, fun index span found => ?_⟩
  refine owned index span ?_
  rw [← same, List.getElem?_append_left (List.getElem?_eq_some_iff.mp found).1]
  exact found

theorem index_eq_of_shape {slots : SlotTable} (pairwise : slots.spans.Pairwise Span.Apart)
    {left right : Nat} {span : Span} (leftFound : slots.shape[left]? = some (some span))
    (rightFound : slots.shape[right]? = some (some span)) : left = right := by
  by_contra different
  obtain ⟨_, _, leftHere, leftHeld, leftSpan⟩ := mem_spans_of_shape leftFound
  obtain ⟨_, _, rightHere, rightHeld, rightSpan⟩ := mem_spans_of_shape rightFound
  have apart := SlotTable.relation_of_ne Span.Apart.symm pairwise leftHere
    (by rw [SlotState.span?, leftHeld]; rfl) rightHere
    (by rw [SlotState.span?, rightHeld]; rfl) different
  rw [leftSpan, rightSpan] at apart
  simp only [Span.Apart, Span.next] at apart
  omega

/-- What is loaded under the rows of a table recovers all of it, if the regions behind those rows
lie behind them in the file too. -/
theorem recovers_of_load {file : File} {settings : ContainerSettings}
    (legal : settings.check = .ok ()) {loaded : Container}
    (found : load file settings = .ok loaded) (held : loaded.file = file)
    {recorded : List Span} {start stop : Nat} (laid : Laid file loaded.slots recorded stop)
    (tiles : Tiles start recorded stop) {table : SlotTable}
    (shape : table.shape = SlotTable.shape loaded.slots ++ recorded.map some)
    (limited : table.length ≤ SlotTable.indexLimit) : Recovers file settings table := by
  have length := SlotTable.length_of_shape_append shape
  have filled := laid.size_ne_zero
  obtain ⟨report, repaired, regained⟩ :=
    validate_of_lost (held.symm ▸ laid) tiles.pairwise (by omega)
  have same : SlotTable.shape repaired.slots = table.shape := by
    rw [shape, regained.slots, shape_recovered]
  have pairwise : (SlotTable.spans repaired.slots).Pairwise Span.Apart := by
    rw [SlotTable.spans_eq_of_shape_eq same, SlotTable.spans_eq_append shape]
    exact laid.pairwise
  have owned (index : Nat) (span : Span) (here : table.shape[index]? = some (some span))
      (other : Nat) :
      (SlotTable.shape repaired.slots)[other]? = some (some span) ↔ other = index := by
    rw [← same] at here
    constructor
    · intro there
      exact index_eq_of_shape pairwise there here
    · rintro rfl
      exact here
  cases eager : settings.validateOnOpen with
  | false =>
    exact ⟨loaded, report, repaired, openFile_of_load legal eager filled found held,
      regained.validated, owned⟩
  | true =>
    -- opening validates, so that a second validation finds nothing that it could repair
    have settled : Laid repaired.file repaired.slots [] repaired.endOfFile := by
      rw [regained.file, held, regained.slots, regained.endOfFile]
      exact laid.recovered
    have confirmed := validate_of_none_lost settled
    have opened := openFile_of_validated legal eager filled found regained.validated
    rw [regained.file, held] at opened
    exact ⟨repaired, _, repaired, opened, confirmed, owned⟩

section

variable {recorded : List Span} {index : Nat} {region : Region}

/-- In a file of what is flushed, the regions behind the stored ones are those that were added. -/
theorem Flushing.laid_base (flushing : Flushing base sealed recorded)
    (stored : Laid base.file base.slots [] base.endOfFile) {file : File}
    (laid : Laid file sealed.slots [] sealed.endOfFile) :
    Laid file base.slots recorded sealed.endOfFile := by
  have fewer := laid.truncate stored.sentinel stored.sized flushing.shape
  rwa [List.append_nil] at fewer

theorem recovers_of_clear (sound : base.Sound) (restorable : base.Restorable)
    (flushing : Flushing base sealed recorded) (limited : sealed.slots.length ≤ SlotTable.indexLimit)
    {file : File} (laid : Laid file sealed.slots [] sealed.endOfFile)
    (same : ∀ pos count, base.Clear pos count →
      file.slice pos count = base.file.slice pos count)
    {settings : ContainerSettings} (legal : settings.check = .ok ()) :
    Recovers file settings sealed.slots := by
  have behind := flushing.laid_base (laid_of_restorable sound restorable) laid
  have found := load_of_restorable sound restorable same behind settings
  refine recovers_of_load legal found rfl (laid_unmarked behind) flushing.tiles ?_ limited
  rw [flushing.shape]
  exact congrArg (· ++ recorded.map some) (shape_unmarked base.slots).symm

theorem slice_afterRecords_of_clear (flushing : Flushing base sealed recorded)
    (ready : sealed.Sealed index region) (other : base.tableIndex ≠ some index) {pos count : Nat}
    (clear : base.Clear pos count) :
    sealed.afterRecords.slice pos count = base.file.slice pos count := by
  have grown := flushing.tiles.start_le
  have held := flushing.laid.held
  have below := clear.1
  have tiles := flushing.tiles
  rw [← List.append_nil recorded] at tiles
  have here : (SlotTable.shape sealed.slots)[index]? = some (some region.span) := by
    rw [SlotTable.getElem?_shape, ready.here]
    rfl
  have apart := clear.outside flushing.shape tiles here other
  simp only [Region.span] at apart
  rw [(agrees_afterRecords ready).same pos count (by omega) apart, flushing.kept pos count clear]

theorem shape_take (flushing : Flushing base sealed recorded) :
    SlotTable.shape (sealed.slots.take base.slots.length) = SlotTable.shape base.slots := by
  rw [SlotTable.shape, List.map_take]
  have starts := congrArg (List.take base.slots.length) flushing.shape
  rwa [List.take_left' (SlotTable.length_shape base.slots)] at starts

/-- Where the table kept its place, the old header over the new records is loaded with the regions
of the stored slots, whichever guard words have been written. -/
theorem recovers_of_kept (sound : base.Sound) (saved : base.Saved)
    (stored : Laid base.file base.slots [] base.endOfFile) (reserved : base.tableIndex = some index)
    (user : base.root ≠ some index) (flushing : Flushing base sealed recorded)
    (ready : sealed.Sealed index region) {file : File}
    (laid : Laid file sealed.slots [] sealed.endOfFile)
    (header : file.slice 0 Header.width = base.file.slice 0 Header.width)
    (records : file.slice region.offset (sealed.slots.length * SlotRecord.width) =
      sealed.records.flatMap SlotRecord.encode)
    {guards : SlotTable} (same : guards.shape = SlotTable.shape base.slots) {own : Region}
    (guarded : guards[index]? = some (.live own))
    (signed : Signed file guards) {settings : ContainerSettings}
    (legal : settings.check = .ok ()) : Recovers file settings sealed.slots := by
  obtain ⟨_, held, again, here, offset, _, _⟩ := saved.table
  cases reserved.symm.trans again
  have shape := shape_take flushing
  have bound := (List.getElem?_eq_some_iff.mp here).1
  have rowHere : (sealed.slots.take base.slots.length)[index]? = some (.live region) := by
    rw [List.getElem?_take, if_pos bound]
    exact ready.here
  have longer : base.slots.length ≤ sealed.slots.length := by
    have length := SlotTable.length_of_shape_append flushing.shape
    omega
  -- the table's region is where the old header says
  have place : base.tableOffset = region.offset := by
    have spans := congrArg (·[index]?) shape
    simp only [SlotTable.getElem?_shape, rowHere, here, Option.map_some, SlotState.span?_live,
      Option.some.injEq] at spans
    exact offset.trans (congrArg Span.offset spans).symm
  have first : file.slice base.tableOffset (base.slots.length * SlotRecord.width) =
      ((sealed.slots.take base.slots.length).map SlotState.record).flatMap SlotRecord.encode := by
    rw [place, ← File.take_slice file region.offset (Nat.mul_le_mul_right _ longer), records,
      SlotRecord.take_encodeAll (by simpa using longer), records_eq, List.map_take]
  have written := written_guardedBy sound saved shape same (flushing.laid_base stored laid)
    header first signed
  have rows : Laid file (sealed.slots.take base.slots.length) (recorded ++ []) sealed.endOfFile := by
    refine laid.truncate ?_ ?_ (by rw [shape]; exact flushing.shape)
    · rw [List.getElem?_take, if_pos (by omega)]
      exact laid.sentinel
    · exact fun state member => laid.sized state (List.mem_of_mem_take member)
  rw [List.append_nil] at rows
  have joined := rows.guardedBy (shape.trans same.symm)
  have live : (SlotTable.guardedBy (sealed.slots.take base.slots.length) guards)[index]? =
      some (.live region) := SlotTable.getElem?_guardedBy rowHere guarded
  have length := SlotTable.length_guardedBy (shape.trans same.symm)
  rw [List.length_take, Nat.min_eq_left longer] at length
  have found := load_of_written written joined settings
  simp only [place, tableOwner_unmarked joined live] at found
  rw [userRoot_getD (by simpa [length] using sound.root) user] at found
  refine recovers_of_load legal found rfl (laid_unmarked joined) flushing.tiles ?_
    (Nat.le_of_lt ready.limited)
  rw [flushing.shape, ← shape, ← SlotTable.shape_guardedBy (shape.trans same.symm)]
  exact congrArg (· ++ recorded.map some) (shape_unmarked _).symm

theorem header_afterRecords (flushing : Flushing base sealed recorded)
    (ready : sealed.Sealed index region) (stored : Laid base.file base.slots [] base.endOfFile) :
    sealed.afterRecords.slice 0 Header.width = base.file.slice 0 Header.width := by
  have width : Header.width = 560 := rfl
  have first := flushing.laid.first_le
  have held := flushing.laid.held
  have low := (flushing.laid.within (flushing.laid.mem ready.here rfl)).1
  simp only [firstOffset, Region.span] at first low
  rw [(agrees_afterRecords ready).same _ _ (by omega) (Or.inl (by omega)),
    flushing.kept _ _ (clear_header stored)]

/-- The guard words are still those that were stored: they lie outside of the table's region, and no
other write has been made. -/
theorem signed_afterRecords (flushing : Flushing base sealed recorded)
    (ready : sealed.Sealed index region) (saved : base.Saved)
    (stored : Laid base.file base.slots [] base.endOfFile) :
    Signed sealed.afterRecords base.slots := by
  intro state member own guard held word
  obtain ⟨position, found⟩ := List.mem_iff_getElem?.mp member
  obtain ⟨leading, trailing⟩ := clear_guards stored found held
  obtain ⟨leadingWord, trailingWord⟩ := saved.signed state member own guard held word
  have listed : own.span ∈ sealed.slots.spans ++ [] := by
    rw [List.append_nil, SlotTable.spans_eq_append flushing.shape]
    exact List.mem_append_left _ (SlotTable.mem_spans found held)
  have table := flushing.laid.mem ready.here rfl
  have before := flushing.laid.leading_outside listed table
  have behind := flushing.laid.trailing_outside listed table
  have whole := flushing.laid.held
  obtain ⟨low, high⟩ := flushing.laid.within listed
  simp only [firstOffset, Span.next, Region.span] at before behind low high
  have leadingKept : sealed.afterRecords.slice own.leadingGuard 8 =
      sealed.file.slice own.leadingGuard 8 :=
    (agrees_afterRecords ready).same _ _ (by simp only [Region.leadingGuard]; omega)
      (by simp only [Region.leadingGuard]; omega)
  have trailingKept : sealed.afterRecords.slice own.trailingGuard 8 =
      sealed.file.slice own.trailingGuard 8 :=
    (agrees_afterRecords ready).same _ _ (by simp only [Region.trailingGuard]; omega)
      (by simp only [Region.trailingGuard]; omega)
  exact ⟨(congrArg Bytes.toInt (leadingKept.trans (flushing.kept _ _ leading))).trans leadingWord,
    (congrArg Bytes.toInt (trailingKept.trans (flushing.kept _ _ trailing))).trans trailingWord⟩

/-- Behind the slot records the file recovers all regions, wherever the table lies. -/
theorem recovers_afterRecords (sound : base.Sound) (restorable : base.Restorable)
    (flushing : Flushing base sealed recorded) (ready : sealed.Sealed index region)
    {settings : ContainerSettings} (legal : settings.check = .ok ()) :
    Recovers sealed.afterRecords settings sealed.slots := by
  have stored := laid_of_restorable sound restorable
  have laid := laid_afterRecords flushing.laid ready
  by_cases reserved : base.tableIndex = some index
  · rcases restorable with ⟨clean, user⟩ | ⟨fresh, rfl⟩
    · have saved := sound.saved clean
      obtain ⟨_, own, again, here, _⟩ := saved.table
      cases reserved.symm.trans again
      exact recovers_of_kept sound saved stored reserved (user index reserved) flushing ready laid
        (header_afterRecords flushing ready stored) (slice_afterRecords ready) rfl here
        (signed_afterRecords flushing ready saved stored) legal
    · cases reserved
  · exact recovers_of_clear sound restorable flushing (Nat.le_of_lt ready.limited) laid
      (fun _ _ clear => slice_afterRecords_of_clear flushing ready reserved clear) legal

theorem header_afterGuards (flushing : Flushing base sealed recorded)
    (ready : sealed.Sealed index region) (stored : Laid base.file base.slots [] base.endOfFile) :
    sealed.afterGuards.slice 0 Header.width = base.file.slice 0 Header.width := by
  rw [front_afterGuards flushing.laid ready (by omega), flushing.kept _ _ (clear_header stored)]

theorem signed_afterGuards (laid : Laid sealed.file sealed.slots [] sealed.endOfFile)
    (ready : sealed.Sealed index region) {count : Nat} :
    Signed sealed.afterGuards (sealed.slots.take count) := by
  intro state member own guard held word
  have listed := List.mem_of_mem_take member
  obtain ⟨position, found⟩ := List.mem_iff_getElem?.mp listed
  have low := (laid.within (laid.mem found held)).1
  have width : Header.width = 560 := rfl
  simp only [firstOffset, Region.span] at low
  obtain ⟨leading, trailing⟩ := (stored_flushWrites laid ready).signed laid listed held word
  exact ⟨(intAt_afterGuards (by simp only [Region.leadingGuard]; omega)).trans leading,
    (intAt_afterGuards (by simp only [Region.trailingGuard]; omega)).trans trailing⟩

/-- Behind the guard words the file recovers all regions where the table kept its place, or where
there was none before. -/
theorem recovers_afterGuards (sound : base.Sound) (restorable : base.Restorable)
    (flushing : Flushing base sealed recorded) (ready : sealed.Sealed index region)
    (placed : ∀ table, base.tableIndex = some table → index = table)
    {settings : ContainerSettings} (legal : settings.check = .ok ()) :
    Recovers sealed.afterGuards settings sealed.slots := by
  have stored := laid_of_restorable sound restorable
  have laid := laid_afterGuards flushing.laid ready
  have width : Header.width = 560 := rfl
  rcases restorable with ⟨clean, user⟩ | ⟨fresh, rfl⟩
  · have saved := sound.saved clean
    obtain ⟨table, _, reserved, here, _⟩ := saved.table
    cases placed table reserved
    have bound := (List.getElem?_eq_some_iff.mp here).1
    have low := (flushing.laid.within (flushing.laid.mem ready.here rfl)).1
    simp only [firstOffset, Region.span] at low
    have records : sealed.afterGuards.slice region.offset
        (sealed.slots.length * SlotRecord.width) = sealed.records.flatMap SlotRecord.encode := by
      rw [slice_afterGuards (by omega), ← ready.offset]
      exact (stored_flushWrites flushing.laid ready).records
    have guarded : (sealed.slots.take base.slots.length)[index]? = some (.live region) := by
      rw [List.getElem?_take, if_pos bound]
      exact ready.here
    exact recovers_of_kept sound saved stored reserved (user index reserved) flushing ready laid
      (header_afterGuards flushing ready stored) records (shape_take flushing) guarded
      (signed_afterGuards flushing.laid ready) legal
  · refine recovers_of_clear sound (Or.inr ⟨fresh, rfl⟩) flushing (Nat.le_of_lt ready.limited) laid
      (fun pos count clear => ?_) legal
    -- a new container has no region, so that what is clear lies in its header
    have below := clear.1
    simp only [create, firstOffset] at below
    rw [front_afterGuards flushing.laid ready (by omega), flushing.kept pos count clear]

/-- Where the table moved, its old slot has the guard words of a free one, and the old header is
refused for it. -/
theorem openFile_afterGuards_of_moved (sound : base.Sound) (clean : base.dirty = false)
    (stored : Laid base.file base.slots [] base.endOfFile)
    (flushing : Flushing base sealed recorded) (ready : sealed.Sealed index region) {table : Nat}
    (reserved : base.tableIndex = some table) (moved : index ≠ table) {own : Region}
    (free : sealed.slots[table]? = some (.free own false)) {settings : ContainerSettings}
    (legal : settings.check = .ok ()) :
    openFile sealed.afterGuards settings =
      (.error (.malformed (.tableUnowned base.tableOffset)), sealed.afterGuards) := by
  have saved := sound.saved clean
  obtain ⟨_, held, again, here, offset, fits, records⟩ := saved.table
  cases reserved.symm.trans again
  have bound := (List.getElem?_eq_some_iff.mp here).1
  have shape := shape_take flushing
  have guardHere : (sealed.slots.take base.slots.length)[table]? = some (.free own false) := by
    rw [List.getElem?_take, if_pos bound]
    exact free
  have place : own.span = held.span := by
    have spans := congrArg (·[table]?) shape
    simpa only [SlotTable.getElem?_shape, guardHere, here, Option.map_some, SlotState.span?_live,
      SlotState.span?_free, Option.some.injEq] using spans
  have apart := flushing.laid.apart ready.here rfl free rfl moved
  have member := flushing.laid.mem free rfl
  rw [place] at apart member
  have kept : sealed.afterGuards.slice base.tableOffset (base.slots.length * SlotRecord.width) =
      (base.slots.map SlotState.record).flatMap SlotRecord.encode := by
    rw [offset, ← records_eq, ← records]
    exact (slice_afterGuards_of_apart flushing.laid ready member apart fits).trans
      (flushing.kept _ _ (clear_table stored reserved here fits))
  have behind := flushing.laid_base stored (laid_afterGuards flushing.laid ready)
  have written := written_guardedBy sound saved rfl shape behind
    (header_afterGuards flushing ready stored) kept (signed_afterGuards flushing.laid ready)
  have joined := behind.guardedBy shape.symm
  have owner : (SlotTable.guardedBy base.slots (sealed.slots.take base.slots.length))[table]? =
      some (.free held false) := SlotTable.getElem?_guardedBy here guardHere
  have found := load_of_written written joined settings
  simp only [offset, tableOwner_of_free joined owner] at found
  rw [offset]
  exact openFile_of_load_error legal joined.size_ne_zero found

/-- A flush that is cut off. From a container that was stored, and whose root is not the table's own
slot, or from a new one, let operations run that store nothing, and then a flush with a growth factor
above one in double precision or with fewer slots than the least number of records. Cut off before
or behind the slot records it leaves a file that can be opened, and validation then gives every
region of the slot table that the flush began with to the slot that had it. The same holds behind
the guard words where the slot table kept its place or had none. Where it moved, that file is
refused. -/
theorem interruption_of_flush {now : Container} (reached : Reachable base)
    (restorable : base.Restorable) (run : Unstored base now) (dirty : now.dirty = true)
    (grows : binary64.Holds now.settings.tableGrowth ∧
        (Binary.finite false 1 0).lt now.settings.tableGrowth = true ∨
      now.slots.length < now.settings.tableMinimum)
    (stored : now.flush.1 = .ok ()) {settings : ContainerSettings}
    (legal : settings.check = .ok ()) :
    now.flush = (.ok (), { now.sealing with
        file := now.sealing.afterGuards.write 0 now.sealing.header.encode, dirty := false }) ∧
      Recovers now.sealing.file settings now.slots ∧
      Recovers now.sealing.afterRecords settings now.slots ∧
      ((∀ table, base.tableIndex = some table → now.sealing.tableIndex = some table) →
        Recovers now.sealing.afterGuards settings now.slots) ∧
      ∀ table, base.tableIndex = some table → now.sealing.tableIndex ≠ some table →
        openFile now.sealing.afterGuards settings =
          (.error (.malformed (.tableUnowned base.tableOffset)), now.sealing.afterGuards) := by
  have sound := reached.sound
  obtain ⟨soundNow, _⟩ := run.grows sound reached.filled
  obtain ⟨_, laidNow, _⟩ := soundNow.laid
  have filled : 0 < now.slots.length := (List.getElem?_eq_some_iff.mp laidNow.sentinel).1
  have limit : SlotTable.indexLimit = 2 ^ 32 := rfl
  have limited := soundNow.limited
  have more := ContainerSettings.lt_tableRecords filled (by omega) grows
  obtain ⟨_, flushed, _⟩ := flush_eq_sealing soundNow dirty stored
  obtain ⟨recorded, index, region, flushing, ready, starts, placed⟩ :=
    flushing_of_unstored sound reached.filled restorable run dirty more stored
  have laid := laid_of_restorable sound restorable
  refine ⟨?_, ?_, ?_, fun kept => ?_, fun table reserved moved => ?_⟩
  · rw [flushed, writeAll_flushWrites]
  · exact (recovers_of_clear sound restorable flushing (Nat.le_of_lt ready.limited) flushing.laid
      flushing.kept legal).shorten starts
  · exact (recovers_afterRecords sound restorable flushing ready legal).shorten starts
  · have same (table : Nat) (reserved : base.tableIndex = some table) : index = table :=
      Option.some.inj (ready.reserved.symm.trans (kept table reserved))
    exact (recovers_afterGuards sound restorable flushing ready same legal).shorten starts
  · rcases placed table reserved with rfl | ⟨different, own, free⟩
    · exact absurd ready.reserved moved
    · rcases restorable with ⟨clean, _⟩ | ⟨fresh, rfl⟩
      · exact openFile_afterGuards_of_moved sound clean laid flushing ready reserved different free
          legal
      · cases reserved

theorem interruption_of_second_entry :
    ((create {}).newEntry 5).2.flush.2.Restorable ∧
      Recovers (((create {}).newEntry 5).2.flush.2.newEntry 5).2.sealing.afterGuards {}
        (((create {}).newEntry 5).2.flush.2.newEntry 5).2.slots := by
  have legal : ContainerSettings.check {} = .ok () := by decide +kernel
  have reached : Reachable ((create {}).newEntry 5).2.flush.2 :=
    .step (.step (reachable_create legal) (.newEntry 5) rfl) .flush rfl
  have restorable : ((create {}).newEntry 5).2.flush.2.Restorable :=
    restorable_of_rootless (by decide +kernel) (by decide +kernel)
  have still : (((create {}).newEntry 5).2.flush.2.newEntry 5).2.sealing.tableIndex =
      ((create {}).newEntry 5).2.flush.2.tableIndex := by decide +kernel
  obtain ⟨_, _, _, kept, _⟩ := interruption_of_flush reached restorable
    (.step .start (.newEntry 5) rfl id) (by decide +kernel)
    (Or.inl ⟨by decide +kernel, by decide +kernel⟩) (by decide +kernel) legal
  exact ⟨restorable, kept fun table reserved => still.trans reserved⟩

/-- A stored table with room for two records has to move for a third one. Cut off behind the guard
words, the flush that moves it leaves a file that is refused, and so not recovered. -/
theorem recovers_of_moved_table_fails :
    ((create { tableMinimum := 1 }).flush.2.newEntry 16).2.flush.1 = .ok () ∧
      openFile ((create { tableMinimum := 1 }).flush.2.newEntry 16).2.sealing.afterGuards {} =
        (.error (.malformed (.tableUnowned 0x238)),
          ((create { tableMinimum := 1 }).flush.2.newEntry 16).2.sealing.afterGuards) ∧
      ¬Recovers ((create { tableMinimum := 1 }).flush.2.newEntry 16).2.sealing.afterGuards {}
        ((create { tableMinimum := 1 }).flush.2.newEntry 16).2.slots := by
  have legal : ContainerSettings.check { tableMinimum := 1 } = .ok () := by decide +kernel
  have reached : Reachable (create { tableMinimum := 1 }).flush.2 :=
    .step (reachable_create legal) .flush rfl
  have clean : (create { tableMinimum := 1 }).flush.2.dirty = false := by decide +kernel
  have restorable : (create { tableMinimum := 1 }).flush.2.Restorable :=
    restorable_of_rootless clean (by decide +kernel)
  have reserved : (create { tableMinimum := 1 }).flush.2.tableIndex = some 1 := by decide +kernel
  have lies : (create { tableMinimum := 1 }).flush.2.tableOffset = 0x238 := by decide +kernel
  have settled : ((create { tableMinimum := 1 }).flush.2.newEntry 16).2.sealing.tableIndex =
      some 3 := by decide +kernel
  have stored : ((create { tableMinimum := 1 }).flush.2.newEntry 16).2.flush.1 = .ok () := by
    decide +kernel
  obtain ⟨_, index, _, flushing, ready, _, placed⟩ := flushing_of_unstored reached.sound
    reached.filled restorable (.step .start (.newEntry 16) rfl id) (by decide +kernel)
    (by decide +kernel) stored
  have last : index = 3 := Option.some.inj (ready.reserved.symm.trans settled)
  have refused : openFile ((create { tableMinimum := 1 }).flush.2.newEntry 16).2.sealing.afterGuards
      {} = (.error (.malformed (.tableUnowned 0x238)),
        ((create { tableMinimum := 1 }).flush.2.newEntry 16).2.sealing.afterGuards) := by
    rcases placed 1 reserved with first | ⟨different, _, free⟩
    · omega
    · rw [← lies]
      exact openFile_afterGuards_of_moved reached.sound clean
        (laid_of_restorable reached.sound restorable) flushing ready reserved different free
        (by decide +kernel)
  refine ⟨stored, refused, fun recovers => ?_⟩
  obtain ⟨_, _, _, opened, _⟩ := recovers
  rw [refused] at opened
  cases opened

end

end SlotStore.Container
