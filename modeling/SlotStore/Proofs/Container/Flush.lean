import SlotStore.Proofs.Container.TableMove
import SlotStore.Proofs.Record

/-!
What a flush writes, and where: records inside the table's region, a guard word on both sides of
every region, the header in front of all. No two of these writes meet, none reaches the contents of
another slot, and afterwards the file holds the container as it is.
-/

namespace SlotStore

theorem bmod_of_signed (value : Int) (low : -2 ^ 63 ≤ value) (high : value < 2 ^ 63) :
    Int.bmod value 0x10000000000000000 = value := by
  apply Int.bmod_eq_of_le_mul_two
  · omega
  · omega

theorem SlotState.signedCapacity_of_legal {region : Region} (legal : region.span.Legal) :
    signedCapacity region = region.capacity := by
  have small : region.capacity < 2 ^ 63 := legal.2.2
  unfold signedCapacity
  exact bmod_of_signed region.capacity (by omega) (by omega)

theorem SlotState.guardWord_live_of_legal {region : Region} (legal : region.span.Legal) :
    (SlotState.live region).guardWord = some (region.capacity : Int) := by
  simp only [guardWord]
  rw [signedCapacity_of_legal legal]

theorem SlotState.guardWord_free_of_legal {region : Region} (deletable : Bool)
    (legal : region.span.Legal) :
    (SlotState.free region deletable).guardWord = some (-(region.capacity : Int)) := by
  have small : region.capacity < 2 ^ 63 := legal.2.2
  simp only [guardWord]
  rw [signedCapacity_of_legal legal, bmod_of_signed (-region.capacity) (by omega) (by omega)]

/-- The guard word of a legal region: its magnitude is the capacity, its sign says who is live. -/
theorem SlotState.guardWord_of_legal {state : SlotState} {region : Region}
    (held : state.region? = some region) (legal : region.span.Legal) :
    ∃ guard : Int, state.guardWord = some guard ∧ guard.natAbs = region.capacity ∧
      -2 ^ 63 ≤ guard ∧ guard < 2 ^ 63 ∧ (0 < guard ↔ state.isLive = true) := by
  have positive := legal.1
  have small := legal.2.2
  simp only [Region.span] at positive small
  cases state with
  | unused => cases held
  | live own =>
    cases held
    refine ⟨_, guardWord_live_of_legal legal, by omega, by omega, by omega, ?_⟩
    simp [isLive, positive]
  | free own deletable =>
    cases held
    refine ⟨_, guardWord_free_of_legal deletable legal, by omega, by omega, by omega, ?_⟩
    simp only [isLive, Bool.false_eq_true, iff_false]
    omega

namespace Container

variable {container : Container}

@[simp] theorem length_records (container : Container) :
    container.records.length = container.slots.length := List.length_map ..

theorem mem_guardWrites_iff {step : Nat × Bytes} :
    step ∈ container.guardWrites ↔ ∃ state ∈ container.slots, ∃ region guard,
      state.region? = some region ∧ state.guardWord = some guard ∧
        (step = (region.leadingGuard, Bytes.ofInt guard) ∨
          step = (region.trailingGuard, Bytes.ofInt guard)) := by
  unfold guardWrites
  rw [List.mem_flatMap]
  refine exists_congr fun state => and_congr_right fun _ => ?_
  cases state with
  | unused => simp [SlotState.region?]
  | live region => simp [SlotState.region?, SlotState.guardWord]
  | free region deletable => simp [SlotState.region?, SlotState.guardWord]

theorem mem_flushWrites_iff {step : Nat × Bytes} :
    step ∈ container.flushWrites ↔
      step = container.recordWrite ∨ step ∈ container.guardWrites ∨ step = container.headerWrite := by
  simp [flushWrites]

/-- A guard write lies behind the header, below the zero word, and in no region. -/
theorem guardWrite_bounds {lost : List Span}
    (laid : Laid container.file container.slots lost container.endOfFile) {step : Nat × Bytes}
    (member : step ∈ container.guardWrites) :
    step.2.length = 8 ∧ firstGuard ≤ step.1 ∧ step.1 + 16 ≤ container.endOfFile ∧
      ∀ own ∈ container.slots.spans ++ lost,
        step.1 + 8 ≤ own.offset ∨ own.offset + own.capacity ≤ step.1 := by
  obtain ⟨state, listed, region, guard, held, _, place⟩ := mem_guardWrites_iff.mp member
  obtain ⟨position, found⟩ := List.mem_iff_getElem?.mp listed
  have inside := laid.mem found held
  obtain ⟨low, high⟩ := laid.within inside
  simp only [firstOffset, Span.next, Region.span] at low high
  rcases place with rfl | rfl
  · refine ⟨Bytes.length_ofInt guard, ?_, ?_, fun own ownMember => ?_⟩
    · simp only [firstGuard, Region.leadingGuard]
      omega
    · simp only [Region.leadingGuard]
      omega
    · have outside := laid.leading_outside inside ownMember
      simp only [Region.leadingGuard]
      simp only [Region.span] at outside
      omega
  · refine ⟨Bytes.length_ofInt guard, ?_, ?_, fun own ownMember => ?_⟩
    · simp only [firstGuard, Region.trailingGuard]
      omega
    · simp only [Region.trailingGuard]
      omega
    · exact laid.trailing_outside inside ownMember

theorem guardWrites_apart {lost : List Span}
    (laid : Laid container.file container.slots lost container.endOfFile) {left right : Nat × Bytes}
    (leftMember : left ∈ container.guardWrites) (rightMember : right ∈ container.guardWrites) :
    left = right ∨ left.1 + 8 ≤ right.1 ∨ right.1 + 8 ≤ left.1 := by
  obtain ⟨leftState, leftListed, leftRegion, leftGuard, leftHeld, leftWord, leftPlace⟩ :=
    mem_guardWrites_iff.mp leftMember
  obtain ⟨rightState, rightListed, rightRegion, rightGuard, rightHeld, rightWord, rightPlace⟩ :=
    mem_guardWrites_iff.mp rightMember
  obtain ⟨leftIndex, leftFound⟩ := List.mem_iff_getElem?.mp leftListed
  obtain ⟨rightIndex, rightFound⟩ := List.mem_iff_getElem?.mp rightListed
  have leftLow := (laid.within (laid.mem leftFound leftHeld)).1
  have rightLow := (laid.within (laid.mem rightFound rightHeld)).1
  simp only [firstOffset, Region.span] at leftLow rightLow
  by_cases same : leftIndex = rightIndex
  · subst same
    cases Option.some.inj (leftFound.symm.trans rightFound)
    cases leftHeld.symm.trans rightHeld
    cases leftWord.symm.trans rightWord
    rcases leftPlace with rfl | rfl <;> rcases rightPlace with rfl | rfl <;>
      simp only [Region.leadingGuard, Region.trailingGuard, true_or] <;> omega
  · have apart := laid.apart leftFound leftHeld rightFound rightHeld same
    simp only [Span.Apart, Span.next, Region.span] at apart
    refine Or.inr ?_
    rcases leftPlace with rfl | rfl <;> rcases rightPlace with rfl | rfl <;>
      simp only [Region.leadingGuard, Region.trailingGuard] <;> omega

/-- The container describes its slot table as the next header will: where it lies, how long it is,
and with room for every record. -/
structure Sealed (container : Container) (index : Nat) (region : Region) : Prop where
  reserved : container.tableIndex = some index
  here : container.slots[index]? = some (.live region)
  offset : container.tableOffset = region.offset
  fits : container.slots.length * SlotRecord.width ≤ region.capacity
  counted : container.recordedSlots = container.slots.length
  limited : container.slots.length < SlotTable.indexLimit

theorem Sealed.recordWrite_bounds {index : Nat} {region : Region}
    (sealed : container.Sealed index region) :
    container.recordWrite.1 = region.offset ∧
      container.recordWrite.2.length = container.slots.length * SlotRecord.width := by
  refine ⟨sealed.offset, ?_⟩
  rw [recordWrite, SlotRecord.length_encodeAll, length_records]

/-- Two writes of a flush are the same or do not meet: the header ends where the first guard may
lie, the records stay in the table's region, and no guard reaches into a region. -/
theorem flushWrites_apart {lost : List Span} {index : Nat} {region : Region}
    (laid : Laid container.file container.slots lost container.endOfFile)
    (sealed : container.Sealed index region) {left right : Nat × Bytes}
    (leftMember : left ∈ container.flushWrites) (rightMember : right ∈ container.flushWrites) :
    left = right ∨ left.1 + left.2.length ≤ right.1 ∨ right.1 + right.2.length ≤ left.1 := by
  have width : Header.width = 560 := rfl
  have start : firstGuard = 560 := rfl
  have headerStart : container.headerWrite.1 = 0 := rfl
  have headerLength : container.headerWrite.2.length = Header.width := Header.length_encode _
  obtain ⟨recordStart, recordLength⟩ := sealed.recordWrite_bounds
  have low := (laid.within (laid.mem sealed.here rfl)).1
  simp only [firstOffset, Region.span] at low
  have fits := sealed.fits
  -- a guard misses the table's region, and so the records in it
  have outside {step : Nat × Bytes} (member : step ∈ container.guardWrites) :
      step.2.length = 8 ∧ firstGuard ≤ step.1 ∧
        (step.1 + 8 ≤ region.offset ∨ region.offset + region.capacity ≤ step.1) := by
    obtain ⟨length, behind, _, apart⟩ := guardWrite_bounds laid member
    exact ⟨length, behind, apart _ (laid.mem sealed.here rfl)⟩
  rcases mem_flushWrites_iff.mp leftMember with rfl | leftGuard | rfl <;>
    rcases mem_flushWrites_iff.mp rightMember with rfl | rightGuard | rfl
  · exact Or.inl rfl
  · have := outside rightGuard
    omega
  · omega
  · have := outside leftGuard
    omega
  · rcases guardWrites_apart laid leftGuard rightGuard with same | apart
    · exact Or.inl same
    · have := outside leftGuard
      have := outside rightGuard
      omega
  · have := outside leftGuard
    omega
  · omega
  · have := outside rightGuard
    omega
  · exact Or.inl rfl

theorem flushWrite_le {lost : List Span} {index : Nat} {region : Region}
    (laid : Laid container.file container.slots lost container.endOfFile)
    (sealed : container.Sealed index region) {step : Nat × Bytes}
    (member : step ∈ container.flushWrites) :
    step.1 + step.2.length ≤ container.file.size := by
  have held := laid.held
  rcases mem_flushWrites_iff.mp member with rfl | guard | rfl
  · obtain ⟨recordStart, recordLength⟩ := sealed.recordWrite_bounds
    have fits := sealed.fits
    have high := (laid.within (laid.mem sealed.here rfl)).2
    simp only [Span.next, Region.span] at high
    omega
  · have bounds := guardWrite_bounds laid guard
    omega
  · have first := laid.first_le
    have length : container.headerWrite.2.length = 560 := Header.length_encode _
    simp only [headerWrite, firstOffset] at first length ⊢
    omega

theorem slice_flushWrites {lost : List Span} {index : Nat} {region : Region}
    (laid : Laid container.file container.slots lost container.endOfFile)
    (sealed : container.Sealed index region) {step : Nat × Bytes}
    (member : step ∈ container.flushWrites) :
    (container.file.writeAll container.flushWrites).slice step.1 step.2.length = step.2 :=
  File.slice_writeAll_of_mem container.file container.flushWrites step.1 step.2
    (flushWrite_le laid sealed member) member
    (fun _ other => flushWrites_apart laid sealed other member)

/-- A file after the writes of a flush: header, records and guards are there, and what lies outside
of them is as before. -/
structure Stored (container : Container) (region : Region) (new : File) : Prop where
  size_le : container.file.size ≤ new.size
  header : new.slice 0 Header.width = container.header.encode
  records : new.slice container.tableOffset (container.slots.length * SlotRecord.width) =
    container.records.flatMap SlotRecord.encode
  guard : ∀ step ∈ container.guardWrites, new.slice step.1 8 = step.2
  clear : ∀ pos count, Header.width ≤ pos → pos + count ≤ container.file.size →
    pos + count ≤ region.offset ∨ region.offset + region.capacity ≤ pos →
    (∀ step ∈ container.guardWrites, pos + count ≤ step.1 ∨ step.1 + 8 ≤ pos) →
    new.slice pos count = container.file.slice pos count

theorem stored_flushWrites {lost : List Span} {index : Nat} {region : Region}
    (laid : Laid container.file container.slots lost container.endOfFile)
    (sealed : container.Sealed index region) :
    Stored container region (container.file.writeAll container.flushWrites) where
  size_le := File.size_le_writeAll _ _
  header := by
    have written := slice_flushWrites laid sealed (mem_flushWrites_iff.mpr (Or.inr (Or.inr rfl)))
    rwa [headerWrite, Header.length_encode] at written
  records := by
    have written := slice_flushWrites laid sealed (mem_flushWrites_iff.mpr (Or.inl rfl))
    rwa [sealed.recordWrite_bounds.2] at written
  guard := by
    intro step member
    have written := slice_flushWrites laid sealed
      (mem_flushWrites_iff.mpr (Or.inr (Or.inl member)))
    rwa [(guardWrite_bounds laid member).1] at written
  clear := by
    intro pos count behind inside apart clear
    refine File.slice_writeAll_of_disjoint container.file container.flushWrites pos count inside ?_
    intro step member
    rcases mem_flushWrites_iff.mp member with rfl | guard | rfl
    · obtain ⟨recordStart, recordLength⟩ := sealed.recordWrite_bounds
      have fits := sealed.fits
      omega
    · have length := (guardWrite_bounds laid guard).1
      have beside := clear step guard
      omega
    · have length : container.headerWrite.2.length = Header.width := Header.length_encode _
      simp only [headerWrite] at length ⊢
      omega

namespace Stored

variable {lost : List Span} {index : Nat} {region : Region} {new : File}

theorem signed (stored : Stored container region new)
    (laid : Laid container.file container.slots lost container.endOfFile) {state : SlotState}
    (member : state ∈ container.slots) {own : Region} {guard : Int}
    (held : state.region? = some own) (word : state.guardWord = some guard) :
    new.intAt own.leadingGuard = guard ∧ new.intAt own.trailingGuard = guard := by
  obtain ⟨position, found⟩ := List.mem_iff_getElem?.mp member
  obtain ⟨other, otherWord, _, low, high, _⟩ :=
    SlotState.guardWord_of_legal held (laid.legal _ (laid.mem found held))
  have same : other = guard := Option.some.inj (otherWord.symm.trans word)
  subst same
  have leading : new.slice own.leadingGuard 8 = Bytes.ofInt other :=
    stored.guard (own.leadingGuard, Bytes.ofInt other)
      (mem_guardWrites_iff.mpr ⟨state, member, own, other, held, word, Or.inl rfl⟩)
  have trailing : new.slice own.trailingGuard 8 = Bytes.ofInt other :=
    stored.guard (own.trailingGuard, Bytes.ofInt other)
      (mem_guardWrites_iff.mpr ⟨state, member, own, other, held, word, Or.inr rfl⟩)
  exact ⟨File.intAt_of_slice leading low high, File.intAt_of_slice trailing low high⟩

theorem intAt (stored : Stored container region new) {pos : Nat} (behind : Header.width ≤ pos)
    (inside : pos + 8 ≤ container.file.size)
    (apart : pos + 8 ≤ region.offset ∨ region.offset + region.capacity ≤ pos)
    (clear : ∀ step ∈ container.guardWrites, pos + 8 ≤ step.1 ∨ step.1 + 8 ≤ pos) :
    new.intAt pos = container.file.intAt pos :=
  congrArg Bytes.toInt (stored.clear pos 8 behind inside apart clear)

theorem lost_guards (stored : Stored container region new)
    (laid : Laid container.file container.slots lost container.endOfFile)
    (sealed : container.Sealed index region) {span : Span} (member : span ∈ lost) :
    new.intAt (span.offset - 8) = container.file.intAt (span.offset - 8) ∧
      new.intAt (span.offset + span.capacity) =
        container.file.intAt (span.offset + span.capacity) := by
  have width : Header.width = 560 := rfl
  have held := laid.held
  have listed : span ∈ container.slots.spans ++ lost := List.mem_append_right _ member
  have table := laid.mem sealed.here rfl
  have between {own : Span} (ownMember : own ∈ container.slots.spans) : own.Apart span :=
    (List.pairwise_append.mp laid.pairwise).2.2 own ownMember span member
  obtain ⟨low, high⟩ := laid.within listed
  have beside := between (SlotTable.mem_spans sealed.here rfl)
  simp only [firstOffset, Span.next, Span.Apart, Region.span] at low high beside
  have clear {pos : Nat} (place : pos = span.offset - 8 ∨ pos = span.offset + span.capacity)
      (step : Nat × Bytes) (guard : step ∈ container.guardWrites) :
      pos + 8 ≤ step.1 ∨ step.1 + 8 ≤ pos := by
    obtain ⟨state, stateMember, own, _, ownHeld, _, ownPlace⟩ := mem_guardWrites_iff.mp guard
    obtain ⟨position, found⟩ := List.mem_iff_getElem?.mp stateMember
    have ownLow := (laid.within (laid.mem found ownHeld)).1
    have apart := between (SlotTable.mem_spans found ownHeld)
    simp only [firstOffset, Span.next, Span.Apart, Region.span] at apart ownLow
    rcases place with rfl | rfl <;> rcases ownPlace with rfl | rfl <;>
      simp only [Region.leadingGuard, Region.trailingGuard] <;> omega
  exact ⟨stored.intAt (by omega) (by omega) (by omega) (clear (Or.inl rfl)),
    stored.intAt (by omega) (by omega) (by omega) (clear (Or.inr rfl))⟩

theorem laid (stored : Stored container region new)
    (laid : Laid container.file container.slots lost container.endOfFile)
    (sealed : container.Sealed index region) :
    Laid new container.slots lost container.endOfFile where
  sentinel := laid.sentinel
  sized := laid.sized
  tiled := laid.tiled
  legal := laid.legal
  guarded := by
    intro span member
    rcases List.mem_append.mp member with held | free
    · obtain ⟨position, state, found, same⟩ := SlotTable.mem_spans_iff.mp held
      obtain ⟨own, ownHeld, rfl⟩ := Option.map_eq_some_iff.mp same
      obtain ⟨guard, word, magnitude, _⟩ :=
        SlotState.guardWord_of_legal ownHeld (laid.legal _ member)
      obtain ⟨leading, trailing⟩ :=
        stored.signed laid (List.mem_of_getElem? found) ownHeld word
      simp only [Region.leadingGuard, Region.trailingGuard] at leading trailing
      exact ⟨by rw [Region.span, leading, magnitude], by rw [Region.span, leading, trailing]⟩
    · obtain ⟨leading, trailing⟩ := stored.lost_guards laid sealed free
      exact (laid.guarded span member).congr leading trailing
  ended := by
    have width : Header.width = 560 := rfl
    have first := laid.first_le
    have held := laid.held
    have high := (laid.within (laid.mem sealed.here rfl)).2
    simp only [firstOffset, Span.next, Region.span] at first high
    rw [stored.intAt (by omega) (by omega) (by omega), laid.ended]
    intro step member
    obtain ⟨_, _, below, _⟩ := guardWrite_bounds laid member
    omega
  held := Nat.le_trans laid.held stored.size_le
  bounded := laid.bounded

theorem saved (stored : Stored container region new)
    (laid : Laid container.file container.slots lost container.endOfFile)
    (sealed : container.Sealed index region) :
    Saved { container with file := new, dirty := false } where
  header := stored.header
  table := ⟨index, region, sealed.reserved, sealed.here, sealed.offset, sealed.fits,
    sealed.offset ▸ stored.records⟩
  counted := sealed.counted
  limited := sealed.limited
  signed := fun _ member _ _ held word => stored.signed laid member held word

theorem sound (stored : Stored container region new) (sound : container.Sound)
    (sealed : container.Sealed index region) :
    Sound { container with file := new, dirty := false } := by
  obtain ⟨lost, laid, full⟩ := sound.laid
  exact {
    laid := ⟨lost, stored.laid laid sealed, full⟩
    table := sound.table
    root := sound.root
    limited := sound.limited
    saved := fun _ => stored.saved laid sealed }

theorem spares (stored : Stored container region new) (sound : container.Sound)
    (sealed : container.Sealed index region) (user : Nat) :
    Spares user container { container with file := new, dirty := false } := by
  intro own live
  obtain ⟨_, free, here⟩ := liveRegion_eq_ok_iff.mp live
  obtain ⟨lost, laid, _⟩ := sound.laid
  have different : user ≠ index := by
    rintro rfl
    exact free sealed.reserved
  have apart := laid.apart here rfl sealed.here rfl different
  have held := laid.held
  obtain ⟨low, high⟩ := laid.within (laid.mem here rfl)
  have width : Header.width = 560 := rfl
  simp only [firstOffset, Span.Apart, Span.next, Region.span] at apart low high
  refine ⟨live, stored.clear _ _ (by omega) (by omega) (by omega) ?_⟩
  intro step member
  have outside := (guardWrite_bounds laid member).2.2.2 _ (laid.mem here rfl)
  simp only [Region.span] at outside
  omega

end Stored

/-- The container as it is described by the header of a flush: its table is recorded where it lies,
with every slot. -/
theorem sealTable_eq {index : Nat} {region : Region}
    (here : container.slots[index]? = some (.live region)) :
    container.sealTable index region = { container with
      slots := container.slots.set index (.live { region with
        size := min (container.slots.length * SlotRecord.width) region.capacity })
      dirty := true
      tableOffset := region.offset
      recordedSlots := container.slots.length } := by
  simp only [sealTable, setSize_eq container here rfl, setState]
  rfl

theorem sealed_sealTable {index : Nat} {region : Region}
    (reserved : container.tableIndex = some index)
    (here : container.slots[index]? = some (.live region))
    (fits : container.slots.length * SlotRecord.width ≤ region.capacity)
    (limited : container.slots.length < SlotTable.indexLimit) :
    (container.sealTable index region).Sealed index { region with
      size := min (container.slots.length * SlotRecord.width) region.capacity } := by
  have bound := (List.getElem?_eq_some_iff.mp here).1
  rw [sealTable_eq here]
  exact {
    reserved := reserved
    here := by simp [bound]
    offset := rfl
    fits := by simpa using fits
    counted := by simp
    limited := by simpa using limited }

theorem moved_sealTable (sound : container.Sound) {index : Nat} {region : Region}
    (reserved : container.tableIndex = some index)
    (here : container.slots[index]? = some (.live region)) :
    Moved container (container.sealTable index region) := by
  have bound := (List.getElem?_eq_some_iff.mp here).1
  rw [sealTable_eq here]
  exact {
    sound := by
      refine sound.dirtied (fun lost laid => laid.restate here rfl ?_) ?_ rfl
        (List.length_set ..) rfl
      · intro held holds
        cases holds
        exact Nat.min_le_right _ _
      · intro other same
        cases reserved.symm.trans same
        exact ⟨{ region with
          size := min (container.slots.length * SlotRecord.width) region.capacity }, by simp [bound]⟩
    dirty := rfl
    root := rfl
    spares := by
      intro user held live
      obtain ⟨nonzero, free, found⟩ := liveRegion_eq_ok_iff.mp live
      have different : index ≠ user := fun same => free (same ▸ reserved)
      refine ⟨liveRegion_eq_ok_iff.mpr ⟨nonzero, free, ?_⟩, rfl⟩
      simp [List.getElem?_set_ne different, found] }

/-- A dirty container is flushed once there is room for the slot table, as long as its slots can be
counted in the header. -/
theorem flush_of_ensured (dirty : container.dirty = true) {roomy : Container}
    (ensured : container.ensureTable = (.ok (), roomy)) {index : Nat} {region : Region}
    (reserved : roomy.tableIndex = some index) (here : roomy.slots[index]? = some (.live region))
    (limited : roomy.slots.length < SlotTable.indexLimit) :
    container.flush = (.ok (), { roomy.sealTable index region with
      file := (roomy.sealTable index region).file.writeAll (roomy.sealTable index region).flushWrites
      dirty := false }) := by
  have table : roomy.tableRegion? = some region :=
    tableRegion?_eq_some_iff.mpr ⟨index, reserved, here⟩
  unfold flush
  rw [if_neg (by simp [dirty]), ensured]
  simp only
  rw [if_neg (Nat.not_le_of_lt limited), reserved, table]

/-- Where a flush of a dirty container leads: some number is too large for it once it has tried to
make room for the slot table, or it seals the table in that room and carries out its writes. -/
theorem flush_ensured (sound : container.Sound) (dirty : container.dirty = true) :
    (∃ excess, container.flush = (.error (.overflow excess), container.ensureTable.2)) ∨
      ∃ index region, container.ensureTable.1 = .ok () ∧
        container.ensureTable.2.tableIndex = some index ∧
        container.ensureTable.2.slots[index]? = some (.live region) ∧
        (container.ensureTable.2.sealTable index region).Sealed index { region with
          size := min (container.ensureTable.2.slots.length * SlotRecord.width) region.capacity } ∧
        container.flush = (.ok (), { container.ensureTable.2.sealTable index region with
          file := (container.ensureTable.2.sealTable index region).file.writeAll
            (container.ensureTable.2.sealTable index region).flushWrites
          dirty := false }) := by
  obtain ⟨_, fits⟩ := moved_ensureTable sound dirty
  rcases ensured : container.ensureTable with ⟨fault | done, roomy⟩
  · obtain ⟨excess, rfl⟩ := overflow_of_settleTable ensured
    refine Or.inl ⟨excess, ?_⟩
    unfold flush
    rw [if_neg (by simp [dirty]), ensured]
  · rw [ensured] at fits
    obtain ⟨index, region, reserved, here, room⟩ := tableFits_iff.mp (fits rfl)
    by_cases limited : roomy.slots.length < SlotTable.indexLimit
    · exact Or.inr ⟨index, region, rfl, reserved, here, sealed_sealTable reserved here room limited,
        flush_of_ensured dirty ensured reserved here limited⟩
    · refine Or.inl ⟨.slotRecords roomy.slots.length, ?_⟩
      unfold flush
      rw [if_neg (by simp [dirty]), ensured]
      simp only
      rw [if_pos (Nat.le_of_not_lt limited)]

/-- A flush of a dirty container fails on the way, or writes a container that is sealed. -/
theorem flush_cases (sound : container.Sound) (dirty : container.dirty = true) :
    (∃ excess, container.flush.1 = .error (.overflow excess) ∧ Moved container container.flush.2) ∨
      ∃ sealed index region, Moved container sealed ∧ sealed.Sealed index region ∧
        container.flush = (.ok (), { sealed with
          file := sealed.file.writeAll sealed.flushWrites, dirty := false }) := by
  obtain ⟨moved, _⟩ := moved_ensureTable sound dirty
  rcases flush_ensured sound dirty with
    ⟨excess, failed⟩ | ⟨index, region, _, reserved, here, ready, written⟩
  · exact Or.inl ⟨excess, by rw [failed], by rw [failed]; exact moved⟩
  · exact Or.inr ⟨_, index, _, moved.trans (moved_sealTable moved.sound reserved here), ready,
      written⟩

theorem flush_of_clean (clean : container.dirty = false) :
    container.flush = (.ok (), container) := by
  unfold flush
  rw [if_pos clean]

theorem Sound.flush (sound : container.Sound) : container.flush.2.Sound := by
  cases dirty : container.dirty with
  | false =>
    rw [flush_of_clean dirty]
    exact sound
  | true =>
    rcases flush_cases sound dirty with ⟨_, _, moved⟩ | ⟨sealed, index, region, moved, ready, written⟩
    · exact moved.sound
    · obtain ⟨_, laid, _⟩ := moved.sound.laid
      rw [written]
      exact (stored_flushWrites laid ready).sound moved.sound ready

theorem Spares.flush (sound : container.Sound) (index : Nat) :
    Spares index container container.flush.2 := by
  cases dirty : container.dirty with
  | false =>
    rw [flush_of_clean dirty]
    exact Spares.refl index container
  | true =>
    rcases flush_cases sound dirty with ⟨_, _, moved⟩ | ⟨sealed, _, region, moved, ready, written⟩
    · exact moved.spares index
    · obtain ⟨_, laid, _⟩ := moved.sound.laid
      rw [written]
      exact (moved.spares index).trans
        ((stored_flushWrites laid ready).spares moved.sound ready index)

theorem root_flush (sound : container.Sound) : container.flush.2.root = container.root := by
  cases dirty : container.dirty with
  | false => rw [flush_of_clean dirty]
  | true =>
    rcases flush_cases sound dirty with ⟨_, _, moved⟩ | ⟨sealed, _, _, moved, _, written⟩
    · exact moved.root
    · rw [written]
      exact moved.root

theorem flush_outcome (sound : container.Sound) :
    (∃ excess, container.flush.1 = .error (.overflow excess)) ∨ container.flush.1 = .ok () := by
  cases dirty : container.dirty with
  | false => exact Or.inr (by rw [flush_of_clean dirty])
  | true =>
    rcases flush_cases sound dirty with ⟨excess, failed, _⟩ | ⟨_, _, _, _, _, written⟩
    · exact Or.inl ⟨excess, failed⟩
    · exact Or.inr (by rw [written])

theorem flush_ok (sound : container.Sound) {new : Container}
    (flushed : container.flush = (.ok (), new)) : new.dirty = false ∧ new.root = container.root := by
  have root := root_flush sound
  rw [flushed] at root
  refine ⟨?_, root⟩
  cases dirty : container.dirty with
  | false =>
    rw [flush_of_clean dirty] at flushed
    cases flushed
    exact dirty
  | true =>
    rcases flush_cases sound dirty with ⟨_, failed, _⟩ | ⟨sealed, _, _, moved, _, written⟩
    · rw [flushed] at failed
      cases failed
    · rw [flushed] at written
      cases written
      rfl

end Container

end SlotStore
