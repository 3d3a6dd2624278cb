import SlotStore.Proofs.Container.Runs
import SlotStore.Proofs.Container.Words

/-!
Opening of files of which nothing is known. What the loader accepts need not be laid out well: the
regions of two slots may lie inside one another, and the end of the file may be anywhere behind the
header. But every slot is grounded in a pair of guard words within the file, no two slots share an
offset, the slot table has a live slot and the root is another one.
-/

namespace SlotStore

/-- A slot's region lies within the file, where two equal guard words say how long it is and whether
it is live. -/
structure SlotState.Grounded (file : File) (state : SlotState) (region : Region) : Prop where
  behind : firstOffset ≤ region.offset
  aligned : (region.offset - 8) % granule = 0
  positive : 0 < region.capacity
  whole : region.capacity % granule = 0
  sized : region.size ≤ region.capacity
  within : region.offset + region.capacity + 8 ≤ file.size
  guarded : Guarded file region.span
  signed : 0 < file.intAt region.leadingGuard ↔ state.isLive = true

namespace Container

/-- What the loader has established of a container. -/
structure Grounded (container : Container) : Prop where
  sentinel : container.slots[0]? = some .unused
  held : ∀ state ∈ container.slots, ∀ region, state.region? = some region →
    state.Grounded container.file region
  distinct : (container.slots.spans.map Span.offset).Nodup
  table : ∀ index, container.tableIndex = some index →
    ∃ region, container.slots[index]? = some (.live region) ∧ region.offset = container.tableOffset
  listed : container.recordedSlots ≠ 0 → ∃ index, container.tableIndex = some index
  root : ∀ index, container.root = some index →
    0 < index ∧ index < container.slots.length ∧ container.tableIndex ≠ some index
  limited : container.slots.length < SlotTable.indexLimit

variable {file : File}

/-- A record that is accepted gives its region, whose guard words were looked at. -/
theorem regionState_ok {row : SlotRecord} {state : SlotState}
    (behind : firstOffset ≤ row.offset.toNat) (read : regionState file row = .ok state) :
    ∃ region, state.region? = some region ∧ region.offset = row.offset.toNat ∧
      state.Grounded file region := by
  simp only [regionState] at read
  generalize found : file.intAt (row.offset.toNat - 8) = guard at read
  split at read
  · cases read
  split at read
  · cases read
  rename_i shaped
  split at read
  · cases read
  rename_i fits
  split at read
  · cases read
  rename_i paired
  split at read
  · cases read
  rename_i sized
  simp only [not_or, not_not] at shaped paired
  obtain ⟨nonzero, whole, aligned⟩ := shaped
  have grounded (state : SlotState) (signed : 0 < guard ↔ state.isLive = true) :
      state.Grounded file ⟨row.offset.toNat, row.size.toNat, guard.natAbs⟩ := by
    constructor
    · exact behind
    · exact aligned
    · exact Int.natAbs_pos.mpr nonzero
    · exact whole
    · exact Nat.le_of_not_lt sized
    · exact Nat.le_of_not_lt fits
    · exact ⟨congrArg Int.natAbs found, paired.trans found.symm⟩
    · rw [← found] at signed
      exact signed
  split at read
  · rename_i above
    cases read
    exact ⟨_, rfl, rfl, grounded _ (iff_of_true above rfl)⟩
  · rename_i below
    cases read
    exact ⟨_, rfl, rfl, grounded _ (iff_of_false below Bool.false_ne_true)⟩

/-- What reading a table has established: every region is grounded, no two start at one offset, and
none at an offset that was seen before. -/
structure Tabled (file : File) (index : Nat) (seen : List Nat) (rows : List SlotRecord)
    (states : List SlotState) : Prop where
  length : states.length = rows.length
  first : index = 0 → states[0]? = some .unused ∨ states = []
  held : ∀ state ∈ states, ∀ region, state.region? = some region → state.Grounded file region
  distinct : seen.Nodup → ((SlotTable.spans states).map Span.offset ++ seen).Nodup

theorem Tabled.unused {index : Nat} {seen : List Nat} {row : SlotRecord} {rows : List SlotRecord}
    {states : List SlotState} (tabled : Tabled file (index + 1) seen rows states) :
    Tabled file index seen (row :: rows) (.unused :: states) where
  length := congrArg (· + 1) tabled.length
  first := fun _ => Or.inl rfl
  held := by
    intro state member region held
    rcases List.mem_cons.mp member with rfl | later
    · cases held
    · exact tabled.held state later region held
  distinct := tabled.distinct

theorem Tabled.region {index : Nat} {seen : List Nat} {row : SlotRecord} {rows : List SlotRecord}
    {state : SlotState} {states : List SlotState} {region : Region} (behindFirst : index ≠ 0)
    (fresh : region.offset ∉ seen) (held : state.region? = some region)
    (grounded : state.Grounded file region)
    (tabled : Tabled file (index + 1) (region.offset :: seen) rows states) :
    Tabled file index seen (row :: rows) (state :: states) where
  length := congrArg (· + 1) tabled.length
  first := fun zero => absurd zero behindFirst
  held := by
    intro other member own ownHeld
    rcases List.mem_cons.mp member with rfl | later
    · cases held.symm.trans ownHeld
      exact grounded
    · exact tabled.held other later own ownHeld
  distinct := by
    intro nodup
    have distinct := tabled.distinct (List.nodup_cons.mpr ⟨fresh, nodup⟩)
    rw [SlotTable.spans_cons_of_some states held]
    exact List.perm_middle.nodup_iff.mp distinct

theorem slotStates_ok {rows : List SlotRecord} {index : Nat} {seen : List Nat}
    {states : List SlotState} (read : slotStates file index seen rows = .ok states) :
    Tabled file index seen rows states := by
  induction rows generalizing index seen states with
  | nil =>
    cases read
    exact ⟨rfl, fun _ => Or.inr rfl, fun _ member => (nomatch member), id⟩
  | cons row rest ih =>
    simp only [slotStates] at read
    by_cases low : row.offset.toNat < firstOffset
    · rw [if_pos low] at read
      cases later : slotStates file (index + 1) seen rest with
      | error damage =>
        rw [later] at read
        cases read
      | ok others =>
        rw [later] at read
        cases read
        exact (ih later).unused
    · rw [if_neg low] at read
      split at read
      · cases read
      rename_i behindFirst
      split at read
      · cases read
      rename_i fresh
      cases here : regionState file row with
      | error damage =>
        rw [here] at read
        cases read
      | ok state =>
        obtain ⟨region, held, offset, grounded⟩ := regionState_ok (Nat.le_of_not_lt low) here
        rw [here] at read
        simp only at read
        cases later : slotStates file (index + 1) (row.offset.toNat :: seen) rest with
        | error damage =>
          rw [later] at read
          cases read
        | ok others =>
          rw [later] at read
          cases read
          rw [← offset] at fresh later
          exact (ih later).region behindFirst fresh held grounded

theorem SlotRecord.length_rows (count : Nat) (bytes : Bytes) :
    (SlotRecord.rows count bytes).length = count := by
  induction count generalizing bytes with
  | zero => rfl
  | succ count ih => simp [SlotRecord.rows, ih]

theorem recordedRows_ok {header : Header} {rows : List SlotRecord}
    (read : recordedRows file header = .ok rows) : rows.length = header.slotCount.toNat := by
  simp only [recordedRows] at read
  split at read
  · cases read
  · unfold SlotRecord.decodeTable at read
    split at read
    · cases read
    · unfold requireLength at read
      split at read
      · cases read
      · cases read
        exact SlotRecord.length_rows _ _

theorem decode_ok {bytes : Bytes} {header : Header} (decoded : Header.decode bytes = .ok header) :
    firstOffset ≤ header.endOfFile.toNat := by
  unfold Header.decode at decoded
  split at decoded
  · cases decoded
  · cases checked : (Header.ofFields bytes).check with
    | error fault =>
      rw [checked] at decoded
      cases decoded
    | ok done =>
      rw [checked] at decoded
      cases decoded
      unfold Header.check at checked
      split at checked
      · cases checked
      split at checked
      · cases checked
      split at checked
      · cases checked
      · rename_i behind
        exact Nat.le_of_not_lt behind

theorem tableOwner_ok {slots : SlotTable} {offset index : Nat}
    (owned : tableOwner slots offset = .ok index) :
    ∃ region, slots[index]? = some (.live region) ∧ region.offset = offset := by
  unfold tableOwner at owned
  split at owned
  · cases owned
  · rename_i found
    split at owned
    · rename_i live
      cases owned
      obtain ⟨bound, hit, _⟩ := List.findIdx?_eq_some_iff_getElem.mp found
      rw [List.getElem?_eq_getElem bound] at live ⊢
      cases here : slots[index] with
      | live region =>
        rw [here] at hit
        exact ⟨region, rfl, eq_of_beq hit⟩
      | unused => simp [here, SlotState.isLive] at live
      | free region deletable => simp [here, SlotState.isLive] at live
    · cases owned

theorem userRoot_ok {slots : SlotTable} {tableIndex word : Nat} {root : Option Nat}
    (user : userRoot slots tableIndex word = .ok root) {index : Nat} (anchored : root = some index) :
    0 < index ∧ index < slots.length ∧ index ≠ tableIndex := by
  unfold userRoot at user
  split at user
  · cases user
    cases anchored
  · rename_i nonzero
    split at user
    · cases user
    · rename_i inside
      cases user
      cases anchored
      omega

theorem grounded_of_unlisted {container : Container} (slots : container.slots = .fresh)
    (table : container.tableIndex = none) (root : container.root = none)
    (recorded : container.recordedSlots = 0) : container.Grounded where
  sentinel := by rw [slots]; rfl
  held := by
    intro state member region held
    rw [slots] at member
    cases List.mem_singleton.mp member
    cases held
  distinct := by rw [slots]; exact List.nodup_nil
  table := by
    intro index reserved
    rw [table] at reserved
    cases reserved
  listed := fun listed => absurd recorded listed
  root := by
    intro index anchored
    rw [root] at anchored
    cases anchored
  limited := by rw [slots]; decide

theorem ofHeader_ok {header : Header} {settings : ContainerSettings} {loaded : Container}
    (read : ofHeader file header settings = .ok loaded) :
    loaded.Grounded ∧ loaded.file = file ∧ loaded.endOfFile = header.endOfFile.toNat ∧
      loaded.dirty = false ∧ loaded.appendInFlight = false ∧ loaded.settings = settings := by
  unfold ofHeader at read
  split at read
  · rename_i unlisted
    split at read
    · cases read
    · cases read
      exact ⟨grounded_of_unlisted rfl rfl rfl (congrArg UInt32.toNat unlisted), rfl, rfl, rfl, rfl, rfl⟩
  · rename_i listed
    split at read
    · cases read
    rename_i rows rowsRead
    split at read
    · cases read
    rename_i states statesRead
    have tabled := slotStates_ok statesRead
    have length := tabled.length.trans (recordedRows_ok rowsRead)
    have count : header.slotCount.toNat ≠ 0 :=
      fun zero => listed (UInt32.toNat_inj.mp zero)
    have filled : states ≠ [] := by
      rintro rfl
      exact count length.symm
    simp only [ofStates_of_filled filled] at read
    split at read
    · cases read
    rename_i tableIndex owned
    split at read
    · cases read
    rename_i root user
    obtain ⟨region, live, offset⟩ := tableOwner_ok owned
    cases read
    refine ⟨{
      sentinel := (tabled.first rfl).resolve_right filled
      held := tabled.held
      distinct := by simpa using tabled.distinct List.nodup_nil
      table := ?_
      listed := fun _ => ⟨tableIndex, rfl⟩
      root := ?_
      limited := ?_ }, rfl, rfl, rfl, rfl, rfl⟩
    · intro index reserved
      cases reserved
      exact ⟨region, live, offset⟩
    · intro index anchored
      obtain ⟨positive, inside, other⟩ := userRoot_ok user anchored
      exact ⟨positive, inside, fun same => other (Option.some.inj same).symm⟩
    · have word := header.slotCount.toNat_lt
      simp only [SlotTable.indexLimit]
      omega

theorem load_ok {settings : ContainerSettings} {loaded : Container}
    (read : load file settings = .ok loaded) :
    loaded.Grounded ∧ loaded.file = file ∧ firstOffset ≤ loaded.endOfFile ∧
      loaded.endOfFile < 2 ^ 64 ∧ loaded.appendInFlight = false ∧ loaded.dirty = false := by
  unfold load at read
  split at read
  · cases read
  split at read
  · cases read
  rename_i header decoded
  obtain ⟨grounded, held, stop, clean, idle, _⟩ := ofHeader_ok read
  have word := header.endOfFile.toNat_lt
  have legal := decode_ok decoded
  exact ⟨grounded, held, by omega, by omega, idle, clean⟩

theorem load_of_opened {after : File} {settings : ContainerSettings} {opened : Container}
    (filled : file.size ≠ 0) (quiet : settings.validateOnOpen = false)
    (accepted : openFile file settings = (.ok opened, after)) : load file settings = .ok opened := by
  unfold openFile at accepted
  split at accepted
  · cases accepted
  rw [if_neg filled] at accepted
  split at accepted
  · cases accepted
  · rename_i loaded found
    simp only [quiet, Bool.false_eq_true, if_false] at accepted
    cases accepted
    exact found

/-- Opening is sound on arbitrary bytes. No sum, difference or product that loading takes leaves the
words of 64 bits. Where a file is accepted, the sentinel is unused and no two slots share an offset.
Every slot in use lies behind the header and within the file, aligned, with a legal capacity, between
two equal guard words that say how long it is and whether it is live. The slot table has a live slot
where the header says that it lies, and the root is another slot. -/
theorem integrity_of_opened (filled : file.size ≠ 0) (bounded : file.size < 2 ^ 63)
    {settings : ContainerSettings} (quiet : settings.validateOnOpen = false) :
    loadInWords file settings = some (load file settings) ∧
      ∀ opened after, openFile file settings = (.ok opened, after) →
        opened.slots[0]? = some .unused ∧
        (opened.slots.spans.map Span.offset).Nodup ∧
        (∀ state ∈ opened.slots, ∀ region, state.region? = some region →
          0x238 ≤ region.offset ∧ (region.offset - 8) % 16 = 0 ∧
          0 < region.capacity ∧ region.capacity % 16 = 0 ∧ region.size ≤ region.capacity ∧
          region.offset + region.capacity + 8 ≤ file.size ∧
          (file.intAt region.leadingGuard).natAbs = region.capacity ∧
          file.intAt region.trailingGuard = file.intAt region.leadingGuard ∧
          (0 < file.intAt region.leadingGuard ↔ state.isLive = true)) ∧
        (opened.recordedSlots ≠ 0 → ∃ index region, opened.tableIndex = some index ∧
          opened.slots[index]? = some (.live region) ∧ region.offset = opened.tableOffset) ∧
        ∀ index, opened.root = some index →
          index < opened.slots.length ∧ opened.tableIndex ≠ some index := by
  refine ⟨loadInWords_eq bounded settings, fun opened after accepted => ?_⟩
  obtain ⟨grounded, rfl, _⟩ := load_ok (load_of_opened filled quiet accepted)
  refine ⟨grounded.sentinel, grounded.distinct, ?_, ?_, ?_⟩
  · intro state member region held
    have firm := grounded.held state member region held
    exact ⟨firm.behind, firm.aligned, firm.positive, firm.whole, firm.sized, firm.within,
      firm.guarded.1, firm.guarded.2, firm.signed⟩
  · intro listed
    obtain ⟨index, reserved⟩ := grounded.listed listed
    obtain ⟨region, live, offset⟩ := grounded.table index reserved
    exact ⟨index, region, reserved, live, offset⟩
  · intro index anchored
    obtain ⟨_, inside, user⟩ := grounded.root index anchored
    exact ⟨inside, user⟩

theorem load_ofBytes {header : Header} (legal : header.check = .ok ()) (rest : Bytes)
    (settings : ContainerSettings) :
    load (.ofBytes (header.encode ++ rest)) settings =
      ofHeader (.ofBytes (header.encode ++ rest)) header settings := by
  have length := Header.length_encode header
  have size : (File.ofBytes (header.encode ++ rest)).size = Header.width + rest.length := by
    rw [← File.length_toList, File.toList_ofBytes, List.length_append, length]
  have front : (File.ofBytes (header.encode ++ rest)).slice 0 Header.width = header.encode := by
    rw [File.toList_slice, File.toList_ofBytes, List.drop_zero, ← length, List.take_left]
  have decoded := Header.decode_encode header []
  rw [List.append_nil, legal] at decoded
  unfold load
  rw [if_neg (by omega), front, decoded]
  rfl

theorem slice_ofBytes (header : Header) (rest : Bytes) (pos count : Nat) :
    (File.ofBytes (header.encode ++ rest)).slice (Header.width + pos) count =
      (rest.drop pos).take count := by
  rw [File.toList_slice, File.toList_ofBytes, ← Header.length_encode header, List.drop_length_add_append]

/-- One entry and the slot table behind it, between their guard words. -/
def twoRegions : Bytes :=
  Bytes.ofInt 16 ++ [1, 2, 3, 4, 5] ++ Bytes.zeros 11 ++ Bytes.ofInt 16 ++
    Bytes.ofInt 48 ++ [⟨0, 0⟩, ⟨0x238, 5⟩, ⟨0x258, 48⟩].flatMap SlotRecord.encode ++
      Bytes.ofInt 48 ++ Bytes.ofInt 0

/-- The header of a file with these regions, which ends the file at some offset. -/
def headerOfTwo (stop : UInt64) : Header :=
  { Header.fresh with endOfFile := stop, tableOffset := 0x258, slotCount := 3 }

def fileOfTwo (stop : UInt64) : File := .ofBytes ((headerOfTwo stop).encode ++ twoRegions)

theorem size_fileOfTwo (stop : UInt64) : (fileOfTwo stop).size = 0x298 := by
  rw [← File.length_toList, fileOfTwo, File.toList_ofBytes, List.length_append,
    Header.length_encode]
  rfl

theorem regionState_fileOfTwo (stop : UInt64) :
    regionState (fileOfTwo stop) ⟨0x238, 5⟩ = .ok (.live ⟨0x238, 5, 16⟩) ∧
      regionState (fileOfTwo stop) ⟨0x258, 48⟩ = .ok (.live ⟨0x258, 48, 48⟩) := by
  have word (pos : Nat) : (fileOfTwo stop).intAt (Header.width + pos) =
      Bytes.toInt ((twoRegions.drop pos).take 8) :=
    congrArg Bytes.toInt (slice_ofBytes (headerOfTwo stop) twoRegions pos 8)
  have first : (fileOfTwo stop).intAt (0x238 - 8) = 16 := (word 0).trans (by decide +kernel)
  have firstEnd : (fileOfTwo stop).intAt (0x238 + 16) = 16 := (word 24).trans (by decide +kernel)
  have second : (fileOfTwo stop).intAt (0x258 - 8) = 48 := (word 32).trans (by decide +kernel)
  have secondEnd : (fileOfTwo stop).intAt (0x258 + 48) = 48 := (word 88).trans (by decide +kernel)
  have size := size_fileOfTwo stop
  constructor
  · simp [regionState, first, firstEnd, size, granule]
  · simp [regionState, second, secondEnd, size, granule]

def openedOfTwo (stop : UInt64) : Container where
  file := fileOfTwo stop
  slots := [.unused, .live ⟨0x238, 5, 16⟩, .live ⟨0x258, 48, 48⟩]
  tableIndex := some 2
  root := none
  endOfFile := stop.toNat
  tableOffset := 0x258
  recordedSlots := 3
  dirty := false
  appendInFlight := false
  settings := {}

theorem load_fileOfTwo {stop : UInt64} (behind : firstOffset ≤ stop.toNat) :
    load (fileOfTwo stop) {} = .ok (openedOfTwo stop) := by
  have legal : (headerOfTwo stop).check = .ok () := by
    have signature : (headerOfTwo stop).signature = Header.expectedSignature := rfl
    have version : (headerOfTwo stop).version = Header.expectedVersion := rfl
    have inside : ¬ (headerOfTwo stop).endOfFile.toNat < firstOffset := Nat.not_lt.mpr behind
    unfold Header.check
    rw [if_neg (not_not.mpr signature), if_neg (not_not.mpr version), if_neg inside]
  have rows : recordedRows (fileOfTwo stop) (headerOfTwo stop) =
      .ok [⟨0, 0⟩, ⟨0x238, 5⟩, ⟨0x258, 48⟩] := by
    have count : (headerOfTwo stop).slotCount.toNat = 3 := rfl
    have offset : (headerOfTwo stop).tableOffset.toNat = 0x258 := rfl
    have stored : (fileOfTwo stop).slice 0x258 (3 * SlotRecord.width) =
        (twoRegions.drop 40).take 48 := slice_ofBytes (headerOfTwo stop) twoRegions 40 48
    have inside : ¬ (0x258 < firstOffset ∨
        (fileOfTwo stop).size < 0x258 + 3 * SlotRecord.width) := by
      rw [size_fileOfTwo]
      decide
    simp only [recordedRows, count, offset, if_neg inside, stored]
    decide +kernel
  obtain ⟨first, second⟩ := regionState_fileOfTwo stop
  have states : slotStates (fileOfTwo stop) 0 [] [⟨0, 0⟩, ⟨0x238, 5⟩, ⟨0x258, 48⟩] =
      .ok [.unused, .live ⟨0x238, 5, 16⟩, .live ⟨0x258, 48, 48⟩] := by
    simp [slotStates, first, second, firstOffset, Except.map]
  rw [fileOfTwo, load_ofBytes legal, ← fileOfTwo]
  unfold ofHeader
  simp only [rows, states]
  rfl

theorem openFile_fileOfTwo {stop : UInt64} (behind : firstOffset ≤ stop.toNat) :
    openFile (fileOfTwo stop) {} = (.ok (openedOfTwo stop), fileOfTwo stop) := by
  have filled : (fileOfTwo stop).size ≠ 0 := by
    rw [size_fileOfTwo]
    decide
  exact openFile_of_load (by decide +kernel) rfl filled (load_fileOfTwo behind) rfl

theorem integrity_of_early_end :
    (fileOfTwo 0x238).size ≠ 0 ∧ (fileOfTwo 0x238).size < 2 ^ 63 ∧
      loadInWords (fileOfTwo 0x238) {} = some (load (fileOfTwo 0x238) {}) ∧
      openFile (fileOfTwo 0x238) {} = (.ok (openedOfTwo 0x238), fileOfTwo 0x238) ∧
        (openedOfTwo 0x238).slots[0]? = some .unused ∧
        ((openedOfTwo 0x238).slots.spans.map Span.offset).Nodup := by
  have size := size_fileOfTwo 0x238
  have filled : (fileOfTwo 0x238).size ≠ 0 := by omega
  have bounded : (fileOfTwo 0x238).size < 2 ^ 63 := by omega
  have accepted : openFile (fileOfTwo 0x238) {} = (.ok (openedOfTwo 0x238), fileOfTwo 0x238) :=
    openFile_fileOfTwo (by decide)
  have quiet : ContainerSettings.validateOnOpen {} = false := rfl
  obtain ⟨words, sound⟩ := integrity_of_opened filled bounded quiet
  obtain ⟨sentinel, distinct, _⟩ := sound _ _ accepted
  exact ⟨filled, bounded, words, accepted, sentinel, distinct⟩

end Container

end SlotStore
