import SlotStore.Container.Loading
import SlotStore.Proofs.Container.Flush
import SlotStore.Proofs.Container.Repair

/-!
Opening a stored container again. Header, slot table and guards are read back as the container
wrote them, so loading gives the container back; only the marks of deletable slots and an append in
flight are forgotten.
-/

namespace SlotStore

/-- The state that loading gives back for a stored one; no mark for reclamation is stored. -/
def SlotState.unmarked : SlotState → SlotState
  | .free region _ => .free region false
  | state => state

namespace SlotState

@[simp] theorem region?_unmarked (state : SlotState) : state.unmarked.region? = state.region? := by
  cases state <;> rfl

@[simp] theorem span?_unmarked (state : SlotState) : state.unmarked.span? = state.span? := by
  cases state <;> rfl

@[simp] theorem guardWord_unmarked (state : SlotState) :
    state.unmarked.guardWord = state.guardWord := by
  cases state <;> rfl

theorem unmarked_eq_live_iff {state : SlotState} {region : Region} :
    state.unmarked = .live region ↔ state = .live region := by
  cases state <;> simp [unmarked]

def record (state : SlotState) : SlotRecord :=
  match state.region? with
  | some region => ⟨UInt64.ofNat region.offset, UInt64.ofNat region.size⟩
  | none => ⟨0, 0⟩

end SlotState

namespace Container

variable {container : Container}

theorem records_eq (container : Container) :
    container.records = container.slots.map SlotState.record := rfl

/-- The container as its file gives it back. -/
def reloaded (container : Container) (settings : ContainerSettings) : Container :=
  { container with
    slots := container.slots.map SlotState.unmarked
    dirty := false
    appendInFlight := false
    settings := settings }

theorem regionState_record {lost : List Span} {file : File} {slots : SlotTable} {endOfFile : Nat}
    (laid : Laid file slots lost endOfFile) {index : Nat} {state : SlotState} {region : Region}
    {guard : Int} (found : slots[index]? = some state) (held : state.region? = some region)
    (word : state.guardWord = some guard) (leading : file.intAt region.leadingGuard = guard)
    (trailing : file.intAt region.trailingGuard = guard) :
    regionState file state.record = .ok state.unmarked := by
  have member := laid.mem found held
  have fits := laid.size_le found held
  have aligned := laid.aligned member
  have fileHeld := laid.held
  have bounded := laid.bounded
  have legal := laid.legal _ member
  obtain ⟨low, high⟩ := laid.within member
  obtain ⟨other, otherWord, magnitude, _, _, sign⟩ := SlotState.guardWord_of_legal held legal
  have same : other = guard := Option.some.inj (otherWord.symm.trans word)
  subst same
  obtain ⟨positive, whole, _⟩ := legal
  simp only [firstOffset, Span.next, Region.span] at low high aligned positive whole
  simp only [Region.leadingGuard, Region.trailingGuard] at leading trailing
  have offset : state.record.offset.toNat = region.offset := by
    simp only [SlotState.record, held]
    exact toNat_word64 (by omega)
  have size : state.record.size.toNat = region.size := by
    simp only [SlotState.record, held]
    exact toNat_word64 (by omega)
  unfold regionState
  simp only [offset, size, leading, magnitude]
  rw [if_neg (by omega), if_neg (by omega), if_neg (by omega), if_neg (by rw [trailing]; simp),
    if_neg (by omega)]
  cases state with
  | unused => cases held
  | live own =>
    cases held
    rw [if_pos (sign.mpr rfl)]
    rfl
  | free own deletable =>
    cases held
    rw [if_neg (fun above => by simpa [SlotState.isLive] using sign.mp above)]
    rfl

theorem slotStates_cons_of_header {file : File} {index : Nat} {seen : List Nat} {row : SlotRecord}
    (rows : List SlotRecord) (inHeader : row.offset.toNat < firstOffset) :
    slotStates file index seen (row :: rows) =
      (slotStates file (index + 1) seen rows).map (.unused :: ·) := by
  rw [slotStates]
  rw [if_pos inHeader]

/-- A row that is not the first, and whose region is new and legal, is read as its state. -/
theorem slotStates_cons_of_region {file : File} {index : Nat} {seen : List Nat} {row : SlotRecord}
    {state : SlotState} (rows : List SlotRecord) (behind : firstOffset ≤ row.offset.toNat)
    (behindFirst : index ≠ 0) (fresh : row.offset.toNat ∉ seen)
    (read : regionState file row = .ok state) :
    slotStates file index seen (row :: rows) =
      (slotStates file (index + 1) (row.offset.toNat :: seen) rows).map (state :: ·) := by
  rw [slotStates]
  rw [if_neg (by omega), if_neg behindFirst, if_neg fresh, read]

/-- The rows of the slot table are read back as the states they were written for. -/
theorem slotStates_record {file : File} {states : List SlotState} {index : Nat} {seen : List Nat}
    (first : index = 0 → states.head? = some .unused ∨ states = [])
    (placed : ∀ state ∈ states, ∀ region, state.region? = some region →
      firstOffset ≤ state.record.offset.toNat ∧ state.record.offset.toNat = region.offset ∧
        regionState file state.record = .ok state.unmarked)
    (distinct : ((SlotTable.spans states).map Span.offset ++ seen).Nodup) :
    slotStates file index seen (states.map SlotState.record) =
      .ok (states.map SlotState.unmarked) := by
  induction states generalizing index seen with
  | nil => rfl
  | cons state rest ih =>
    have later : ∀ state ∈ rest, ∀ region, state.region? = some region →
        firstOffset ≤ state.record.offset.toNat ∧ state.record.offset.toNat = region.offset ∧
          regionState file state.record = .ok state.unmarked :=
      fun other member => placed other (List.mem_cons_of_mem state member)
    have onward : index + 1 = 0 → rest.head? = some SlotState.unused ∨ rest = [] :=
      fun zero => absurd zero (Nat.succ_ne_zero index)
    rw [List.map_cons, List.map_cons]
    cases held : state.region? with
    | none =>
      rw [SlotTable.spans_cons_of_none rest held] at distinct
      cases SlotState.region?_eq_none_iff.mp held
      rw [slotStates_cons_of_header _ (by decide), ih onward later distinct]
      rfl
    | some region =>
      obtain ⟨behind, offset, read⟩ := placed state (by simp) region held
      obtain ⟨fresh, moved⟩ := SlotTable.distinct_cons held distinct
      rw [← offset] at fresh moved
      have behindFirst : index ≠ 0 := by
        intro zero
        rcases first zero with unused | empty
        · cases unused
          cases held
        · cases empty
      rw [slotStates_cons_of_region _ behind behindFirst fresh read, ih onward later moved]
      rfl

/-- The file holds a header that describes the container, the rows of its slots where that header
says, and guard words that agree with their states. It is left open who owns the slot table. -/
structure Written (container : Container) : Prop where
  header : container.file.slice 0 Header.width = container.header.encode
  ended : firstOffset ≤ container.endOfFile ∧ container.endOfFile < 2 ^ 64
  placed : firstOffset ≤ container.tableOffset ∧ container.tableOffset < 2 ^ 64
  within : container.tableOffset + container.slots.length * SlotRecord.width ≤ container.file.size
  rows : container.file.slice container.tableOffset
    (container.slots.length * SlotRecord.width) = container.records.flatMap SlotRecord.encode
  counted : container.recordedSlots = container.slots.length
  limited : container.slots.length < SlotTable.indexLimit
  signed : ∀ state ∈ container.slots, ∀ region guard,
    state.region? = some region → state.guardWord = some guard →
    container.file.intAt region.leadingGuard = guard ∧
      container.file.intAt region.trailingGuard = guard
  root : ∀ index, container.root = some index → 0 < index ∧ index < container.slots.length

/-- What a flush stored is written, wherever the regions of the file end by now. -/
theorem Saved.written (saved : container.Saved) {lost : List Span} {stop : Nat}
    (laid : Laid container.file container.slots lost stop)
    (ended : firstOffset ≤ container.endOfFile ∧ container.endOfFile < 2 ^ 64)
    (root : ∀ index, container.root = some index → 0 < index ∧ index < container.slots.length) :
    container.Written := by
  obtain ⟨index, region, _, here, offset, fits, stored⟩ := saved.table
  obtain ⟨low, high⟩ := laid.within (laid.mem here rfl)
  have held := laid.held
  have bounded := laid.bounded
  simp only [Span.next, Region.span] at low high
  exact {
    header := saved.header
    ended := ended
    placed := by omega
    within := by omega
    rows := offset ▸ stored
    counted := saved.counted
    limited := saved.limited
    signed := saved.signed
    root := root }

theorem slotCount_header (written : container.Written) :
    container.header.slotCount.toNat = container.slots.length := by
  have limited := written.limited
  rw [header, written.counted]
  exact toNat_word32 limited

theorem recordedRows_header (written : container.Written) :
    recordedRows container.file container.header = .ok container.records := by
  have limited := written.limited
  have placed := written.placed
  have within := written.within
  have limit : SlotTable.indexLimit = 2 ^ 32 := rfl
  have width : SlotRecord.width = 16 := rfl
  have start : container.header.tableOffset.toNat = container.tableOffset :=
    toNat_word64 placed.2
  unfold recordedRows
  simp only [slotCount_header written, start]
  rw [if_neg (by omega), written.rows, ← length_records container]
  have bounded : container.records.length * SlotRecord.width < 2 ^ 64 := by
    rw [length_records, width]
    omega
  have read := SlotRecord.decodeTable_encode bounded []
  rwa [List.append_nil] at read

theorem findOffset?_unmarked {file : File} {slots : SlotTable} {lost : List Span} {endOfFile : Nat}
    (laid : Laid file slots lost endOfFile) {index : Nat} {state : SlotState} {region : Region}
    (here : slots[index]? = some state) (held : state.region? = some region) :
    SlotTable.findOffset? (slots.map SlotState.unmarked) region.offset = some index := by
  obtain ⟨bound, same⟩ := List.getElem?_eq_some_iff.mp here
  have hit (state : SlotState) : (SlotState.unmarked state).region?.any
      (fun own => own.offset == region.offset) =
        state.region?.any fun own => own.offset == region.offset := by
    rw [SlotState.region?_unmarked]
  unfold SlotTable.findOffset?
  rw [List.findIdx?_map, List.findIdx?_eq_some_iff_getElem]
  refine ⟨bound, ?_, ?_⟩
  · rw [Function.comp_apply, hit, same, held]
    simp
  · intro other before matching
    rw [Function.comp_apply, hit, Option.any_eq_true] at matching
    obtain ⟨own, ownHeld, equal⟩ := matching
    have otherFound : slots[other]? = some slots[other] := List.getElem?_eq_getElem _
    have apart := laid.apart otherFound ownHeld here held (by omega)
    have equal := eq_of_beq equal
    simp only [Span.Apart, Span.next, Region.span] at apart
    omega

/-- The slot that owns the slot table is found by the offset that the header names. -/
theorem tableOwner_unmarked {file : File} {slots : SlotTable} {lost : List Span} {endOfFile : Nat}
    (laid : Laid file slots lost endOfFile) {index : Nat} {region : Region}
    (here : slots[index]? = some (.live region)) :
    tableOwner (slots.map SlotState.unmarked) region.offset = .ok index := by
  unfold tableOwner
  rw [findOffset?_unmarked laid here rfl]
  simp only [List.getElem?_map, here, Option.map_some, Option.any_some]
  rfl

/-- A free slot at the offset that the header names does not own the slot table. -/
theorem tableOwner_of_free {file : File} {slots : SlotTable} {lost : List Span} {endOfFile : Nat}
    (laid : Laid file slots lost endOfFile) {index : Nat} {region : Region} {deletable : Bool}
    (here : slots[index]? = some (.free region deletable)) :
    tableOwner (slots.map SlotState.unmarked) region.offset =
      .error (.tableUnowned region.offset) := by
  unfold tableOwner
  rw [findOffset?_unmarked laid here rfl]
  simp only [List.getElem?_map, here, Option.map_some, Option.any_some]
  rfl

theorem userRoot_getD {slots : SlotTable} {tableIndex : Nat} {root : Option Nat}
    (inside : ∀ index, root = some index → 0 < index ∧ index < slots.length)
    (user : root ≠ some tableIndex) : userRoot slots tableIndex (root.getD 0) = .ok root := by
  cases root with
  | none => rfl
  | some index =>
    obtain ⟨positive, bound⟩ := inside index rfl
    have other : index ≠ tableIndex := fun same => user (congrArg some same)
    simp only [Option.getD_some, userRoot]
    rw [if_neg (by omega), if_neg (by omega)]

theorem check_header (ended : firstOffset ≤ container.endOfFile ∧ container.endOfFile < 2 ^ 64) :
    container.header.check = .ok () := by
  have stop : container.header.endOfFile.toNat = container.endOfFile := toNat_word64 ended.2
  unfold Header.check
  rw [if_neg (by simp [header]), if_neg (by simp [header]), if_neg (by omega)]

theorem decode_header {file : File}
    (held : file.slice 0 Header.width = container.header.encode)
    (ended : firstOffset ≤ container.endOfFile ∧ container.endOfFile < 2 ^ 64) :
    Header.decode (file.slice 0 Header.width) = .ok container.header := by
  have read := Header.decode_encode container.header []
  rw [List.append_nil, check_header ended] at read
  rw [held, read]
  rfl

theorem root_header (written : container.Written) :
    container.header.root.toNat = container.root.getD 0 := by
  have limited := written.limited
  have limit : SlotTable.indexLimit = 2 ^ 32 := rfl
  refine toNat_word64 ?_
  cases anchored : container.root with
  | none => simp
  | some index =>
    have bound := (written.root index anchored).2
    simp only [Option.getD_some]
    omega

theorem slotStates_records (written : container.Written) {lost : List Span} {stop : Nat}
    (laid : Laid container.file container.slots lost stop) :
    slotStates container.file 0 [] container.records =
      .ok (container.slots.map SlotState.unmarked) := by
  have bounded := laid.bounded
  refine slotStates_record (fun _ => Or.inl ?_) ?_ ?_
  · rw [List.head?_eq_getElem?]
    exact laid.sentinel
  · intro state member own ownHeld
    obtain ⟨position, found⟩ := List.mem_iff_getElem?.mp member
    have inside := laid.mem found ownHeld
    obtain ⟨low, high⟩ := laid.within inside
    obtain ⟨guard, word, _⟩ := SlotState.guardWord_of_legal ownHeld (laid.legal _ inside)
    obtain ⟨leading, trailing⟩ := written.signed state member own guard ownHeld word
    simp only [Span.next, Region.span] at low high
    have offset : state.record.offset.toNat = own.offset := by
      simp only [SlotState.record, ownHeld]
      exact toNat_word64 (by omega)
    exact ⟨by omega, offset, regionState_record laid found ownHeld word leading trailing⟩
  · rw [List.append_nil]
    exact (List.nodup_append.mp (List.map_append ▸ laid.distinct)).1

theorem ofStates_of_filled {states : List SlotState} (filled : states ≠ []) :
    SlotTable.ofStates states = states := by
  unfold SlotTable.ofStates
  rw [if_neg (by simpa using filled)]

/-- Loading a written file comes down to who owns the slot table, and to what the header says about
the root. -/
theorem load_of_written (written : container.Written) {lost : List Span} {stop : Nat}
    (laid : Laid container.file container.slots lost stop) (settings : ContainerSettings) :
    load container.file settings =
      match tableOwner (container.slots.map SlotState.unmarked) container.tableOffset with
      | .error damage => .error (.malformed damage)
      | .ok index =>
        match userRoot (container.slots.map SlotState.unmarked) index (container.root.getD 0) with
        | .error damage => .error (.malformed damage)
        | .ok root =>
          .ok { container.reloaded settings with tableIndex := some index, root := root } := by
  have ended := written.ended
  have placed := written.placed
  have within := written.within
  have width : Header.width = 560 := rfl
  have count := slotCount_header written
  have bound := (List.getElem?_eq_some_iff.mp laid.sentinel).1
  have start : container.header.tableOffset.toNat = container.tableOffset :=
    toNat_word64 placed.2
  have stopped : container.header.endOfFile.toNat = container.endOfFile := toNat_word64 ended.2
  simp only [firstOffset] at placed
  have counts : container.header.slotCount ≠ 0 := by
    intro zero
    rw [zero] at count
    simp only [UInt32.toNat_zero] at count
    omega
  have filled : container.slots.map SlotState.unmarked ≠ [] := by
    refine List.ne_nil_of_length_pos ?_
    rw [List.length_map]
    omega
  unfold load
  rw [if_neg (by omega), decode_header written.header ended]
  simp only
  unfold ofHeader
  rw [if_neg counts, recordedRows_header written]
  simp only
  rw [slotStates_records written laid]
  simp only [ofStates_of_filled filled, start, stopped, count, root_header written]
  cases tableOwner (container.slots.map SlotState.unmarked) container.tableOffset with
  | error damage => rfl
  | ok index =>
    simp only
    cases userRoot (container.slots.map SlotState.unmarked) index (container.root.getD 0) with
    | error damage => rfl
    | ok root => simp only [reloaded, written.counted]

/-- Loading the file of a stored container comes down to what the header says about the root. -/
theorem load_of_saved (saved : container.Saved) {lost : List Span} {stop : Nat}
    (laid : Laid container.file container.slots lost stop)
    (ended : firstOffset ≤ container.endOfFile ∧ container.endOfFile < 2 ^ 64)
    (root : ∀ index, container.root = some index → 0 < index ∧ index < container.slots.length)
    (settings : ContainerSettings) :
    ∃ index, container.tableIndex = some index ∧ load container.file settings =
      match userRoot (container.slots.map SlotState.unmarked) index (container.root.getD 0) with
      | .error damage => .error (.malformed damage)
      | .ok root => .ok { container.reloaded settings with root := root } := by
  obtain ⟨index, region, reserved, here, offset, _, _⟩ := saved.table
  refine ⟨index, reserved, ?_⟩
  rw [load_of_written (saved.written laid ended root) laid settings, offset,
    tableOwner_unmarked laid here]
  simp only [reloaded, reserved]

/-- Loading the file of a stored container whose root is not the table's slot gives the container
back, also where more regions were appended since. -/
theorem load_of_user_root (saved : container.Saved) {lost : List Span} {stop : Nat}
    (laid : Laid container.file container.slots lost stop)
    (ended : firstOffset ≤ container.endOfFile ∧ container.endOfFile < 2 ^ 64)
    (root : ∀ index, container.root = some index → 0 < index ∧ index < container.slots.length)
    (user : ∀ index, container.tableIndex = some index → container.root ≠ some index)
    (settings : ContainerSettings) :
    load container.file settings = .ok (container.reloaded settings) := by
  obtain ⟨index, reserved, loaded⟩ := load_of_saved saved laid ended root settings
  rw [loaded, userRoot_getD (by simpa using root) (user index reserved)]
  rfl

theorem Sound.ended (sound : container.Sound) :
    firstOffset ≤ container.endOfFile ∧ container.endOfFile < 2 ^ 64 := by
  obtain ⟨_, laid, _⟩ := sound.laid
  exact ⟨laid.first_le, laid.bounded⟩

theorem Sound.size_ne_zero (sound : container.Sound) : container.file.size ≠ 0 := by
  obtain ⟨_, laid, _⟩ := sound.laid
  exact laid.size_ne_zero

/-- A stored root that is the table's slot is refused. -/
theorem load_of_reserved_root (sound : container.Sound) (clean : container.dirty = false)
    {index : Nat} (reserved : container.tableIndex = some index)
    (anchored : container.root = some index) (settings : ContainerSettings) :
    load container.file settings = .error (.malformed (.rootNotUser index)) := by
  obtain ⟨_, laid, _⟩ := sound.laid
  obtain ⟨other, same, loaded⟩ :=
    load_of_saved (sound.saved clean) laid sound.ended sound.root settings
  cases reserved.symm.trans same
  have positive := (sound.root index anchored).1
  have refused : userRoot (container.slots.map SlotState.unmarked) index index =
      .error (.rootNotUser index) := by
    unfold userRoot
    rw [if_neg (by omega), if_pos (Or.inr rfl)]
  rw [loaded, anchored, Option.getD_some, refused]

theorem shape_unmarked (slots : SlotTable) :
    SlotTable.shape (slots.map SlotState.unmarked) = slots.shape := by
  rw [SlotTable.shape, List.map_map]
  exact List.map_congr_left fun state _ => SlotState.span?_unmarked state

theorem laid_unmarked {file : File} {slots : SlotTable} {lost : List Span} {endOfFile : Nat}
    (laid : Laid file slots lost endOfFile) :
    Laid file (slots.map SlotState.unmarked) lost endOfFile := by
  refine laid.withSlots _ ?_ ?_ (SlotTable.spans_eq_of_shape_eq (shape_unmarked slots))
  · rw [List.getElem?_map, laid.sentinel]
    rfl
  · intro state member region held
    obtain ⟨old, oldMember, rfl⟩ := List.mem_map.mp member
    rw [SlotState.region?_unmarked] at held
    exact laid.sized old oldMember region held

theorem Saved.reloaded (saved : container.Saved) (settings : ContainerSettings) :
    (container.reloaded settings).Saved := by
  obtain ⟨index, region, reserved, here, offset, fits, stored⟩ := saved.table
  have length : (container.reloaded settings).slots.length = container.slots.length :=
    List.length_map ..
  have records : (container.reloaded settings).records = container.records := by
    rw [records_eq, records_eq, Container.reloaded, List.map_map]
    refine List.map_congr_left fun state _ => ?_
    simp only [Function.comp_apply, SlotState.record, SlotState.region?_unmarked]
  exact {
    header := saved.header
    table := by
      refine ⟨index, region, reserved, ?_, offset, length ▸ fits, ?_⟩
      · simp only [Container.reloaded, List.getElem?_map, here]
        rfl
      · rw [records, length]
        exact stored
    counted := saved.counted.trans length.symm
    limited := length ▸ saved.limited
    signed := by
      intro state member region guard held word
      obtain ⟨old, oldMember, rfl⟩ := List.mem_map.mp member
      rw [SlotState.region?_unmarked] at held
      rw [SlotState.guardWord_unmarked] at word
      exact saved.signed old oldMember region guard held word }

theorem Sound.reloaded (sound : container.Sound) (clean : container.dirty = false)
    (settings : ContainerSettings) : (container.reloaded settings).Sound := by
  obtain ⟨lost, laid, full⟩ := sound.laid
  have length : (container.reloaded settings).slots.length = container.slots.length :=
    List.length_map ..
  exact {
    laid := ⟨lost, laid_unmarked laid, fun some => length.trans (full some)⟩
    table := by
      intro index reserved
      obtain ⟨region, here⟩ := sound.table index reserved
      refine ⟨region, ?_⟩
      simp only [Container.reloaded, List.getElem?_map, here]
      rfl
    root := by
      intro index anchored
      rw [length]
      exact sound.root index anchored
    limited := length ▸ sound.limited
    saved := fun _ => (sound.saved clean).reloaded settings }

theorem liveRegion_reloaded (settings : ContainerSettings) {index : Nat} {region : Region} :
    (container.reloaded settings).liveRegion index = .ok region ↔
      container.liveRegion index = .ok region := by
  simp only [liveRegion_eq_ok_iff, Container.reloaded, List.getElem?_map, Option.map_eq_some_iff,
    SlotState.unmarked_eq_live_iff, exists_eq_right]

theorem Spares.reloaded (container : Container) (settings : ContainerSettings) (index : Nat) :
    Spares index container (container.reloaded settings) :=
  fun _ live => ⟨(liveRegion_reloaded settings).mpr live, rfl⟩

/-- A stored container whose root is not the table's slot can be opened again under any legal
settings, also where they ask for a rescan. -/
theorem openFile_of_clean (sound : container.Sound) (clean : container.dirty = false)
    (user : ∀ index, container.tableIndex = some index → container.root ≠ some index)
    {settings : ContainerSettings} (legal : settings.check = .ok ()) :
    openFile container.file settings = (.ok (container.reloaded settings), container.file) := by
  have reloaded := sound.reloaded clean settings
  obtain ⟨lost, laid, full⟩ := reloaded.laid
  have limited := (reloaded.saved rfl).limited
  have kept : lost = [] := by
    by_contra some
    exact Nat.ne_of_lt limited (full some)
  subst kept
  have validated := validate_of_none_lost laid
  obtain ⟨_, stored, _⟩ := sound.laid
  have loaded := load_of_user_root (sound.saved clean) stored sound.ended sound.root user settings
  unfold openFile
  simp only [legal, stored.size_ne_zero, if_false, loaded, validated]
  split <;> rfl

theorem laid_create (settings : ContainerSettings) :
    Laid (create settings).file (create settings).slots [] (create settings).endOfFile where
  sentinel := rfl
  sized := by
    intro state member region held
    obtain rfl := List.mem_singleton.mp member
    cases held
  tiled := ⟨[], List.Perm.refl _, rfl⟩
  legal := fun span member => nomatch member
  guarded := fun span member => nomatch member
  ended := by
    have laidDown : (create settings).file.slice firstGuard 8 = Bytes.ofInt 0 :=
      File.slice_write_self (File.empty.write 0 Header.fresh.encode) firstGuard (Bytes.ofInt 0)
    exact File.intAt_of_slice laidDown (by decide) (by decide)
  held := by
    have filled : Bytes.ofInt 0 ≠ [] := by
      intro empty
      have length := Bytes.length_ofInt 0
      rw [empty] at length
      cases length
    have reached := File.end_le_write (File.empty.write 0 Header.fresh.encode) firstGuard
      (Bytes.ofInt 0) filled
    rw [Bytes.length_ofInt] at reached
    exact reached
  bounded := by
    simp only [create, firstOffset]
    omega

theorem sound_create (settings : ContainerSettings) : (create settings).Sound where
  laid := ⟨[], laid_create settings, fun some => absurd rfl some⟩
  table := fun _ reserved => nomatch reserved
  root := fun _ anchored => nomatch anchored
  limited := by
    simp only [create, SlotTable.fresh, SlotTable.indexLimit, List.length_singleton]
    omega
  saved := fun clean => nomatch clean

end Container

end SlotStore
