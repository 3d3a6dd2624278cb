import SlotStore.Proofs.Container.Crash
import SlotStore.Proofs.Container.Isolation
import SlotStore.Proofs.Container.TableGrowth

/-!
Records lost from a stored slot table. A record of zeros reads as an unused slot, so the file still
opens and every other slot is read as before. The region of a lost slot lies in the file without a
slot, between its guard words, and validation finds it there.
-/

namespace SlotStore

namespace SlotRecord

theorem encodeAll_set {rows : List SlotRecord} {index : Nat} (inside : index < rows.length)
    (row : SlotRecord) :
    (rows.set index row).flatMap encode = (rows.flatMap encode).take (index * width) ++
      row.encode ++ (rows.flatMap encode).drop (index * width + width) := by
  have front := take_encodeAll (Nat.le_of_lt inside)
  have split : rows.flatMap encode =
      (rows.take (index + 1)).flatMap encode ++ (rows.drop (index + 1)).flatMap encode := by
    rw [← List.flatMap_append, List.take_append_drop]
  have length : ((rows.take (index + 1)).flatMap encode).length = index * width + width := by
    rw [length_encodeAll, List.length_take, Nat.min_eq_left inside, Nat.succ_mul]
  have behind : (rows.flatMap encode).drop (index * width + width) =
      (rows.drop (index + 1)).flatMap encode := by
    rw [split, List.drop_left' length]
  rw [front, behind, List.set_eq_take_append_cons_drop, if_pos inside, List.flatMap_append,
    List.flatMap_cons, List.append_assoc]

theorem encode_zeros : encode ⟨0, 0⟩ = Bytes.zeros width := by decide

end SlotRecord

/-- The file with some records of a slot table overwritten with zeros. -/
def File.eraseRecords (file : File) (tableOffset : Nat) (indices : List Nat) : File :=
  file.writeAll (indices.map fun index =>
    (tableOffset + index * SlotRecord.width, Bytes.zeros SlotRecord.width))

theorem Laid.vacate {file : File} {slots : SlotTable} {lost : List Span} {endOfFile : Nat}
    (laid : Laid file slots lost endOfFile) {index : Nat} {state : SlotState} {region : Region}
    (found : slots[index]? = some state) (held : state.region? = some region) :
    Laid file (slots.set index .unused) (region.span :: lost) endOfFile := by
  obtain ⟨bound, here⟩ := List.getElem?_eq_some_iff.mp found
  refine laid.recast ?_ ?_ ?_
  · rw [List.getElem?_set_ne (Nat.ne_of_gt (laid.pos found held))]
    exact laid.sentinel
  · intro other member own ownHeld
    rcases List.mem_or_eq_of_mem_set member with old | rfl
    · exact laid.sized other old own ownHeld
    · cases ownHeld
  · -- the slot takes its region back, and the table is as it was
    have back : (slots.set index .unused).set index state = slots := by
      rw [List.set_set, ← here, List.set_getElem_self]
    have unused : (slots.set index .unused)[index]? = some .unused := by simp [bound]
    have joined := SlotTable.spans_set_unused unused
      (show state.span? = some region.span by simp [SlotState.span?, held])
    rw [back] at joined
    exact List.perm_middle.trans (joined.symm.append_right lost)

theorem Laid.exists_ordered {file : File} {slots : SlotTable} {lost : List Span} {endOfFile : Nat}
    (laid : Laid file slots lost endOfFile) :
    ∃ ordered : List Span, ordered.Perm lost ∧
      ordered.Pairwise (fun left right => left.next ≤ right.offset) ∧
        Laid file slots ordered endOfFile := by
  have same := List.mergeSort_perm lost fun left right => decide (left.offset ≤ right.offset)
  have sorted : (lost.mergeSort fun left right => decide (left.offset ≤ right.offset)).Pairwise
      fun left right => decide (left.offset ≤ right.offset) = true :=
    List.pairwise_mergeSort (by simp only [decide_eq_true_eq]; omega)
      (by simp only [Bool.or_eq_true, decide_eq_true_eq]; omega) _
  have apart := (same.pairwise_iff Span.Apart.symm).mpr (List.pairwise_append.mp laid.pairwise).2.1
  refine ⟨_, same, (sorted.and apart).imp fun {left right} facts => ?_,
    laid.recast laid.sentinel laid.sized (same.append_left _)⟩
  obtain ⟨below, before | behind⟩ := facts
  · exact before
  · have below := of_decide_eq_true below
    simp only [Span.next] at behind ⊢
    omega

/-- The regions of some slots, each once, in the order of their offsets. -/
structure RegionsOf (slots : SlotTable) (indices : List Nat) (spans : List Span) : Prop where
  ordered : spans.Pairwise fun left right => left.next ≤ right.offset
  mem_iff : ∀ span, span ∈ spans ↔ ∃ index ∈ indices, slots.shape[index]? = some (some span)

theorem RegionsOf.nodup {slots : SlotTable} {indices : List Nat} {spans : List Span}
    (regions : RegionsOf slots indices spans) : spans.Nodup := by
  refine regions.ordered.imp fun {left right} before same => ?_
  simp only [same, Span.next] at before
  omega

/-- There is one such list. -/
theorem RegionsOf.unique {slots : SlotTable} {indices : List Nat} {spans others : List Span}
    (regions : RegionsOf slots indices spans) (again : RegionsOf slots indices others) :
    spans = others := by
  have same : spans.Perm others :=
    (List.perm_ext_iff_of_nodup regions.nodup again.nodup).mpr fun span =>
      (regions.mem_iff span).trans (again.mem_iff span).symm
  refine List.Perm.eq_of_pairwise ?_ regions.ordered again.ordered same
  intro left right _ _ before behind
  simp only [Span.next] at before behind
  omega

namespace Container

variable {container : Container} {lost : List Span}

/-- The container without one of its slots, whose record is overwritten with zeros. -/
def forget (container : Container) (index : Nat) : Container :=
  { container with
    file := container.file.write (container.tableOffset + index * SlotRecord.width)
      (Bytes.zeros SlotRecord.width)
    slots := container.slots.set index .unused }

/-- A container whose file can be opened, but for spans that no slot holds: header and slot table
are written, and the slot that owns the table is live and not the root. -/
structure Openable (container : Container) (lost : List Span) : Prop where
  written : container.Written
  laid : Laid container.file container.slots lost container.endOfFile
  table : ∃ index region, container.tableIndex = some index ∧
    container.slots[index]? = some (.live region) ∧ container.tableOffset = region.offset ∧
      container.slots.length * SlotRecord.width ≤ region.capacity
  user : ∀ index, container.tableIndex = some index → container.root ≠ some index

theorem Openable.load (openable : container.Openable lost) (settings : ContainerSettings) :
    load container.file settings = .ok (container.reloaded settings) := by
  obtain ⟨index, region, reserved, here, offset, _⟩ := openable.table
  have root := openable.written.root
  rw [load_of_written openable.written openable.laid, offset,
    tableOwner_unmarked openable.laid here]
  simp only
  rw [userRoot_getD (by simpa using root) (openable.user index reserved)]
  simp only [reloaded, reserved]

theorem Sound.openable (sound : container.Sound) (clean : container.dirty = false)
    (user : ∀ index, container.tableIndex = some index → container.root ≠ some index) :
    container.Openable [] := by
  have saved := sound.saved clean
  have laid := laid_of_restorable sound (Or.inl ⟨clean, user⟩)
  obtain ⟨index, region, reserved, here, offset, fits, _⟩ := saved.table
  exact {
    written := saved.written laid sound.ended sound.root
    laid := laid
    table := ⟨index, region, reserved, here, offset, fits⟩
    user := user }

theorem agreesOutside_forget (container : Container) {index : Nat} {region : Region}
    (inside : index < container.slots.length) (offset : container.tableOffset = region.offset)
    (fits : container.slots.length * SlotRecord.width ≤ region.capacity) :
    File.AgreesOutside region.offset (region.offset + region.capacity) container.file
      (container.forget index).file := by
  simp only [SlotRecord.width] at fits
  simp only [forget, offset]
  apply File.AgreesOutside.write
  · exact Nat.le_add_right _ _
  · simp only [Bytes.length_zeros, SlotRecord.width]
    omega

theorem rows_forget (written : container.Written) {index : Nat}
    (inside : index < container.slots.length) :
    (container.forget index).file.slice container.tableOffset
        (container.slots.length * SlotRecord.width) =
      (container.forget index).records.flatMap SlotRecord.encode := by
  have before : index * SlotRecord.width + SlotRecord.width ≤
      container.slots.length * SlotRecord.width := by
    simp only [SlotRecord.width]
    omega
  have replaced := File.slice_write_over container.file container.tableOffset
    (container.slots.length * SlotRecord.width) (index * SlotRecord.width)
    (Bytes.zeros SlotRecord.width) (by omega) written.within
  rw [Bytes.length_zeros, Nat.max_eq_left before, written.rows] at replaced
  have records : (container.forget index).records = container.records.set index ⟨0, 0⟩ := by
    rw [records_eq, records_eq, forget, List.map_set]
    rfl
  rw [records, SlotRecord.encodeAll_set (by rw [length_records]; exact inside),
    SlotRecord.encode_zeros]
  exact replaced

/-- A file that is written only inside the region of the slot table keeps header and guard words. -/
theorem Openable.agree (openable : container.Openable lost) {index : Nat} {region : Region}
    (here : container.slots[index]? = some (.live region)) {new : File}
    (agree : File.AgreesOutside region.offset (region.offset + region.capacity)
      container.file new) :
    new.slice 0 Header.width = container.header.encode ∧
      ∀ state ∈ container.slots, ∀ own guard, state.region? = some own →
        state.guardWord = some guard →
          new.intAt own.leadingGuard = guard ∧ new.intAt own.trailingGuard = guard := by
  have laid := openable.laid
  have first := laid.first_le
  have held := laid.held
  have table := laid.mem here rfl
  have low := (laid.within table).1
  simp only [firstOffset, Region.span] at first low
  constructor
  · rw [agree.same 0 Header.width (by simp only [Header.width]; omega)
      (Or.inl (by simp only [Header.width]; omega))]
    exact openable.written.header
  · intro state member own guard ownHeld word
    obtain ⟨position, found⟩ := List.mem_iff_getElem?.mp member
    obtain ⟨leading, trailing⟩ := openable.written.signed state member own guard ownHeld word
    have inside := laid.mem found ownHeld
    have leadingApart := laid.leading_outside inside table
    have trailingApart := laid.trailing_outside inside table
    obtain ⟨ownLow, ownHigh⟩ := laid.within inside
    simp only [firstOffset, Span.next, Region.span] at ownLow ownHigh leadingApart trailingApart
    simp only [Region.leadingGuard, Region.trailingGuard] at leading trailing ⊢
    constructor
    · rw [agree.intAt (by omega) (by omega), leading]
    · rw [agree.intAt (by omega) (by omega), trailing]

theorem Openable.written_forget (openable : container.Openable lost) {index : Nat}
    (inside : index < container.slots.length) : (container.forget index).Written := by
  have written := openable.written
  obtain ⟨table, region, _, here, offset, fits⟩ := openable.table
  have agree := agreesOutside_forget container inside offset fits
  obtain ⟨header, signed⟩ := openable.agree here agree
  have length : (container.forget index).slots.length = container.slots.length :=
    List.length_set ..
  exact {
    header := header
    ended := written.ended
    placed := written.placed
    within := by
      rw [length]
      exact Nat.le_trans written.within agree.size_le
    rows := by
      rw [length]
      exact rows_forget written inside
    counted := written.counted.trans length.symm
    limited := length ▸ written.limited
    signed := by
      intro state member own guard held word
      rcases List.mem_or_eq_of_mem_set member with old | rfl
      · exact signed state old own guard held word
      · cases held
    root := by
      rw [length]
      exact written.root }

/-- A container that forgets a slot of a user can still be opened, and the region of that slot is
without one. -/
theorem Openable.forget (openable : container.Openable lost) {index : Nat}
    (inside : index < container.slots.length) (other : container.tableIndex ≠ some index) :
    ∃ more, (container.forget index).Openable more ∧
      ∀ span, span ∈ more ↔ span ∈ lost ∨ container.slots.shape[index]? = some (some span) := by
  obtain ⟨table, region, reserved, here, offset, fits⟩ := openable.table
  have agree := agreesOutside_forget container inside offset fits
  have filled := openable.laid.fill (openable.laid.mem here rfl) agree
  have found := List.getElem?_eq_getElem inside
  have different : index ≠ table := fun same => other (same ▸ reserved)
  -- a slot without a region leaves none behind
  have laid : ∃ more, Laid (container.forget index).file (container.forget index).slots more
      container.endOfFile ∧
        ∀ span, span ∈ more ↔ span ∈ lost ∨ container.slots.shape[index]? = some (some span) := by
    cases held : container.slots[index].region? with
    | none =>
      have same := SlotState.region?_eq_none_iff.mp held
      have still : container.slots.set index .unused = container.slots := by
        rw [← same, List.set_getElem_self]
      refine ⟨lost, ?_, fun span => ?_⟩
      · simp only [Container.forget, still]
        exact filled
      · simp [SlotTable.getElem?_shape, found, SlotState.span?, held]
    | some own =>
      refine ⟨own.span :: lost, filled.vacate found held, fun span => ?_⟩
      simp [SlotTable.getElem?_shape, found, SlotState.span?, held, or_comm, eq_comm]
  obtain ⟨more, laid, members⟩ := laid
  refine ⟨more, ⟨openable.written_forget inside, laid, ?_, openable.user⟩, members⟩
  refine ⟨table, region, reserved, ?_, offset, ?_⟩
  · simp only [Container.forget, List.getElem?_set_ne different, here]
  · simp only [Container.forget, List.length_set]
    exact fits

/-- The container without some of its slots, whose records are overwritten one after another. -/
def forgetAll (container : Container) (indices : List Nat) : Container :=
  indices.foldl forget container

theorem forgetAll_eq (container : Container) (indices : List Nat) :
    container.forgetAll indices = { container with
      file := container.file.eraseRecords container.tableOffset indices
      slots := (container.forgetAll indices).slots } := by
  induction indices generalizing container with
  | nil => rfl
  | cons index rest ih =>
    have later := ih (container.forget index)
    unfold forgetAll at later ⊢
    rw [List.foldl_cons, later]
    rfl

theorem length_forgetAll (container : Container) (indices : List Nat) :
    (container.forgetAll indices).slots.length = container.slots.length := by
  induction indices generalizing container with
  | nil => rfl
  | cons index rest ih => exact (ih (container.forget index)).trans (List.length_set ..)

theorem getElem?_forget (container : Container) (first index : Nat) :
    (container.forget first).slots[index]? =
      if first = index then container.slots[index]?.map fun _ => .unused
      else container.slots[index]? := by
  by_cases same : first = index
  · rw [if_pos same, ← same]
    exact List.getElem?_set_self'
  · rw [if_neg same]
    exact List.getElem?_set_ne same

theorem getElem?_forgetAll (container : Container) (indices : List Nat) (index : Nat) :
    (container.forgetAll indices).slots[index]? =
      if index ∈ indices then container.slots[index]?.map fun _ => .unused
      else container.slots[index]? := by
  induction indices generalizing container with
  | nil => rfl
  | cons first rest ih =>
    have later := ih (container.forget first)
    rw [getElem?_forget] at later
    refine later.trans ?_
    by_cases same : first = index
    · cases found : container.slots[index]? <;> simp [same]
    · simp [same, List.mem_cons, Ne.symm same]

/-- Any slots of users can be forgotten, and the regions of all of them are left over. -/
theorem Openable.forgetAll (openable : container.Openable lost) {indices : List Nat}
    (inside : ∀ index ∈ indices,
      index < container.slots.length ∧ container.tableIndex ≠ some index) :
    ∃ more, (container.forgetAll indices).Openable more ∧ ∀ span, span ∈ more ↔
      span ∈ lost ∨ ∃ index ∈ indices, container.slots.shape[index]? = some (some span) := by
  induction indices generalizing container lost with
  | nil => exact ⟨lost, openable, fun span => by simp⟩
  | cons first rest ih =>
    obtain ⟨here, other⟩ := inside first (by simp)
    obtain ⟨fewer, once, members⟩ := openable.forget here other
    obtain ⟨more, all, listed⟩ := ih once fun index member => by
      obtain ⟨bound, user⟩ := inside index (by simp [member])
      exact ⟨(List.length_set ..).symm ▸ bound, user⟩
    refine ⟨more, all, fun span => ?_⟩
    have later (index : Nat) : (container.forget first).slots.shape[index]? = some (some span) ↔
        first ≠ index ∧ container.slots.shape[index]? = some (some span) := by
      rw [SlotTable.getElem?_shape, SlotTable.getElem?_shape, getElem?_forget]
      by_cases same : first = index
      · cases found : container.slots[index]? <;> simp [same]
      · simp [same]
    simp only [listed, members, later, List.mem_cons, exists_eq_or_imp, or_assoc]
    constructor
    · rintro (old | here | ⟨index, member, _, held⟩)
      · exact Or.inl old
      · exact Or.inr (Or.inl here)
      · exact Or.inr (Or.inr ⟨index, member, held⟩)
    · rintro (old | here | ⟨index, member, held⟩)
      · exact Or.inl old
      · exact Or.inr (Or.inl here)
      · by_cases same : first = index
        · exact Or.inr (Or.inl (same ▸ held))
        · exact Or.inr (Or.inr ⟨index, member, same, held⟩)

theorem agreesOutside_forgetAll {indices : List Nat} {region : Region}
    (inside : ∀ index ∈ indices, index < container.slots.length)
    (offset : container.tableOffset = region.offset)
    (fits : container.slots.length * SlotRecord.width ≤ region.capacity) :
    File.AgreesOutside region.offset (region.offset + region.capacity) container.file
      (container.forgetAll indices).file := by
  induction indices generalizing container with
  | nil => exact File.AgreesOutside.refl _ _ _
  | cons first rest ih =>
    have length : (container.forget first).slots.length = container.slots.length :=
      List.length_set ..
    refine (agreesOutside_forget container (inside first (by simp)) offset fits).trans ?_
    apply ih
    · rw [length]
      exact fun index member => inside index (by simp [member])
    · exact offset
    · rw [length]
      exact fits

/-- A region that a slot of a user has, or had, keeps its bytes. -/
theorem Openable.slice_forgetAll (openable : container.Openable lost) {indices : List Nat}
    (inside : ∀ index ∈ indices, index < container.slots.length) {index : Nat} {state : SlotState}
    {own : Region} (found : container.slots[index]? = some state) (held : state.region? = some own)
    (user : container.tableIndex ≠ some index) :
    (container.forgetAll indices).file.slice own.offset own.capacity =
      container.file.slice own.offset own.capacity := by
  obtain ⟨table, region, reserved, here, offset, fits⟩ := openable.table
  have laid := openable.laid
  have stop := laid.held
  have high := (laid.within (laid.mem found held)).2
  have different : index ≠ table := fun same => user (same ▸ reserved)
  have apart := laid.apart found held here rfl different
  simp only [Span.Apart, Span.next, Region.span] at apart high
  exact (agreesOutside_forgetAll inside offset fits).same _ _ (by omega) (by omega)

theorem close_ok (sound : container.Sound) {file : File}
    (closed : container.close = (.ok (), file)) :
    container.flush = (.ok (), container.flush.2) ∧ container.flush.2.dirty = false ∧
      container.flush.2.file = file := by
  unfold close at closed
  have done : container.flush.1 = .ok () := congrArg Prod.fst closed
  have stored : container.flush = (.ok (), container.flush.2) := Prod.ext done rfl
  have clean := (flush_ok sound stored).1
  have left : container.flush.2.leave = file := congrArg Prod.snd closed
  rw [leave, flush_of_clean clean] at left
  exact ⟨stored, clean, left⟩

theorem close_of_flush (sound : container.Sound) (done : container.flush.1 = .ok ()) :
    container.close = (.ok (), container.flush.2.file) := by
  have clean := (flush_ok sound (Prod.ext done rfl)).1
  exact Prod.ext done (congrArg (fun outcome => outcome.2.file) (flush_of_clean clean))

theorem read_of_claim {index : Nat} {region : Region} {deletable : Bool} (behind : index ≠ 0)
    (user : container.tableIndex ≠ some index)
    (found : container.slots[index]? = some (.free region deletable))
    (within : region.offset + region.size ≤ container.file.size) :
    (container.claim index).1 = .ok () ∧ (container.claim index).2.read index =
      .ok (container.file.slice region.offset region.size) := by
  have free : container.slotOf index = .ok (.free region deletable) :=
    slotOf_eq_ok_iff.mpr ⟨behind, user, found, by simp⟩
  have claimed : container.claim index = (.ok (), container.setState index (.live region)) := by
    simp only [claim, free]
  have bound := (List.getElem?_eq_some_iff.mp found).1
  have live : (container.setState index (.live region)).liveRegion index = .ok region :=
    liveRegion_eq_ok_iff.mpr ⟨behind, user, by simp [setState, bound]⟩
  rw [claimed]
  exact ⟨rfl, read_of_held live (Or.inr within)⟩

theorem Spares.slice_eq {next : Container} {index : Nat} (spares : Spares index container next)
    (sound : container.Sound) (after : next.Sound) {data : Bytes}
    (read : container.read index = .ok data) {state : SlotState} {own : Region}
    (found : next.slots[index]? = some state) (held : state.region? = some own) :
    next.file.slice own.offset own.size = data := by
  obtain ⟨region, live, _⟩ := liveRegion_of_read read
  obtain ⟨still, same⟩ := spares.read sound after live
  have here := (liveRegion_eq_ok_iff.mp still).2.2
  rw [found] at here
  cases here
  cases held
  rw [read, read_of_live after still] at same
  exact Except.ok.inj same

/-- A recovered slot, once it is claimed, is read over the whole capacity of its region, and begins with
what slots of an earlier container had there. -/
structure Returned (earlier : Container) (indices : List Nat) (repaired : Container) (slot : Nat)
    (span : Span) (bytes : Bytes) : Prop where
  claimed : (repaired.claim slot).1 = .ok ()
  read : (repaired.claim slot).2.read slot = .ok bytes
  length : bytes.length = span.capacity
  begins : ∀ index ∈ indices, ∀ state region, earlier.slots[index]? = some state →
    state.region? = some region → region.span = span →
      earlier.file.slice region.offset region.size <+: bytes

/-- The region of a slot whose record was lost returns when the slot that it was recovered to is
claimed. -/
theorem Openable.returned (openable : container.Openable lost) {indices : List Nat}
    (inside : ∀ index ∈ indices,
      index < container.slots.length ∧ container.tableIndex ≠ some index)
    {spans : List Span} (regions : RegionsOf container.slots indices spans) {repaired : Container}
    {front : SlotTable} (length : front.length = container.slots.length)
    (slots : repaired.slots = front ++ spans.map Span.recovered)
    (table : repaired.tableIndex = container.tableIndex)
    (file : repaired.file = (container.forgetAll indices).file) {position : Nat} {span : Span}
    (listed : spans[position]? = some span) :
    ∃ bytes, Returned container indices repaired (container.slots.length + position) span bytes := by
  rw [← length]
  have laid := openable.laid
  have first := (List.getElem?_eq_some_iff.mp laid.sentinel).1
  obtain ⟨index, member, shaped⟩ := (regions.mem_iff span).mp (List.mem_of_getElem? listed)
  obtain ⟨state, own, found, held, rfl⟩ := mem_spans_of_shape shaped
  have high := (laid.within (laid.mem found held)).2
  have stop := laid.held
  have grown : container.file.size ≤ repaired.file.size := by
    obtain ⟨_, region, _, _, offset, fits⟩ := openable.table
    rw [file]
    exact (agreesOutside_forgetAll (fun index member => (inside index member).1) offset fits).size_le
  simp only [Span.next, Region.span] at high
  have behind : front.length + position ≠ 0 := by omega
  have user : repaired.tableIndex ≠ some (front.length + position) := by
    obtain ⟨index, _, reserved, here, _⟩ := openable.table
    have bound := (List.getElem?_eq_some_iff.mp here).1
    rw [table, reserved]
    exact fun same => by cases same; omega
  have recovered : repaired.slots[front.length + position]? =
      some (.free ⟨own.offset, own.capacity, own.capacity⟩ false) := by
    rw [slots, List.getElem?_append_right (Nat.le_add_right _ _), Nat.add_sub_cancel_left,
      List.getElem?_map, listed]
    rfl
  obtain ⟨claimed, read⟩ := read_of_claim behind user recovered (by simp only; omega)
  refine ⟨_, claimed, read, ?_, ?_⟩
  · rw [File.length_slice]
    simp only [Region.span]
    omega
  · intro other otherMember otherState region otherFound otherHeld same
    have fits := laid.size_le otherFound otherHeld
    have kept := openable.slice_forgetAll (fun index member => (inside index member).1) otherFound
      otherHeld (inside other otherMember).2
    simp only [Region.span, Span.mk.injEq] at same
    obtain ⟨offset, capacity⟩ := same
    rw [file, ← offset, ← capacity, kept, ← File.take_slice _ _ fits]
    exact List.take_prefix _ _

theorem reloaded_reloaded (container : Container) (settings : ContainerSettings) :
    (container.reloaded settings).reloaded settings = container.reloaded settings := by
  have again (state : SlotState) : state.unmarked.unmarked = state.unmarked := by
    cases state <;> rfl
  simp only [Container.reloaded, List.map_map, Function.comp_def, again]

/-- The slots whose records are lost are unused, the others are as they are loaded otherwise. -/
theorem getElem?_reloaded_forgetAll {indices : List Nat}
    (inside : ∀ index ∈ indices, index < container.slots.length) (settings : ContainerSettings)
    (index : Nat) : ((container.forgetAll indices).reloaded settings).slots[index]? =
      if index ∈ indices then some .unused else (container.reloaded settings).slots[index]? := by
  simp only [Container.reloaded, List.getElem?_map, getElem?_forgetAll]
  split
  · rename_i member
    rw [List.getElem?_eq_getElem (inside index member)]
    rfl
  · rfl

/-- A container that has lost slots of another one. Those are unused, the regions they had are left
without a slot, and everything else is as the other container has it. -/
structure Bereft (whole : Container) (indices : List Nat) (spans : List Span) (opened : Container) :
    Prop where
  regions : RegionsOf whole.slots indices spans
  length : opened.slots.length = whole.slots.length
  slots : ∀ index : Nat, opened.slots[index]? =
    if index ∈ indices then some .unused else whole.slots[index]?
  tableIndex : opened.tableIndex = whole.tableIndex
  root : opened.root = whole.root
  endOfFile : opened.endOfFile = whole.endOfFile

theorem Openable.load_forgetAll (openable : container.Openable []) {settings : ContainerSettings}
    (still : container.reloaded settings = container) {indices : List Nat}
    (inside : ∀ index ∈ indices,
      index < container.slots.length ∧ container.tableIndex ≠ some index) :
    ∃ opened spans, Bereft container indices spans opened ∧
      Container.load (container.file.eraseRecords container.tableOffset indices) settings =
        .ok opened ∧
      opened.file = container.file.eraseRecords container.tableOffset indices ∧
        opened.file = (container.forgetAll indices).file ∧
          Laid opened.file opened.slots spans container.endOfFile := by
  obtain ⟨more, damaged, members⟩ := openable.forgetAll inside
  obtain ⟨spans, same, ordered, laid⟩ := damaged.laid.exists_ordered
  have file : (container.forgetAll indices).file =
      container.file.eraseRecords container.tableOffset indices := by rw [forgetAll_eq]
  have stop : (container.forgetAll indices).endOfFile = container.endOfFile := by rw [forgetAll_eq]
  refine ⟨(container.forgetAll indices).reloaded settings, spans, ?_, file ▸ damaged.load settings,
    file, rfl, stop ▸ laid_unmarked laid⟩
  exact {
    regions := ⟨ordered, fun span => by rw [same.mem_iff, members]; simp⟩
    length := (List.length_map ..).trans (length_forgetAll container indices)
    slots := by
      intro index
      rw [getElem?_reloaded_forgetAll (fun index member => (inside index member).1), still]
    tableIndex := by
      rw [forgetAll_eq]
      rfl
    root := by
      rw [forgetAll_eq]
      rfl
    endOfFile := stop }

/-- A container that was closed, and whose root is not the table's own slot, is opened as it was
stored, and every slot of a user holds what it held. -/
theorem openFile_of_closed (sound : container.Sound) {file : File}
    (closed : container.close = (.ok (), file))
    (user : ∀ index, container.flush.2.tableIndex = some index →
      container.flush.2.root ≠ some index)
    {settings : ContainerSettings} (legal : settings.check = .ok ()) :
    ∃ whole, openFile file settings = (.ok whole, file) ∧ whole.file = file ∧ whole.Sound ∧
      whole.Openable [] ∧ whole.reloaded settings = whole ∧
        ∀ index, Spares index container whole := by
  obtain ⟨_, clean, rfl⟩ := close_ok sound closed
  have reloaded := sound.flush.reloaded clean settings
  exact ⟨_, openFile_of_clean sound.flush clean user legal, rfl, reloaded,
    reloaded.openable rfl user, container.flush.2.reloaded_reloaded settings,
    fun index => (Spares.flush sound index).trans (Spares.reloaded _ settings index)⟩

/-- Records lost from a stored slot table are healed. Let a container that can be reached be closed,
and its root not be the table's own slot. If records of user slots in its file are overwritten with
zeros, the file can still be opened: those slots are unused, and all others are as the undamaged
file gives them. Validation then changes none of these slots. It recovers every lost region once, as
a free slot behind the table, in the order of the offsets; a recovered slot that is claimed is read
over its whole capacity, beginning with what the lost slot held. Settings that ask for validation
have it done on opening. Only where more regions are lost than there are indices left it fails. -/
theorem healing_of_lost_records {file : File} (reached : Reachable container)
    (closed : container.close = (.ok (), file))
    (user : ∀ index, container.flush.2.tableIndex = some index →
      container.flush.2.root ≠ some index)
    {settings : ContainerSettings} (legal : settings.check = .ok ()) :
    ∃ whole, openFile file settings = (.ok whole, file) ∧
      ∀ indices : List Nat, (∀ index ∈ indices,
          index < whole.slots.length ∧ whole.tableIndex ≠ some index) →
        ∃ opened spans damaged, damaged = file.eraseRecords whole.tableOffset indices ∧
          Bereft whole indices spans opened ∧
          (settings.validateOnOpen = false →
            openFile damaged settings = (.ok opened, damaged)) ∧
          (whole.slots.length + spans.length ≤ SlotTable.indexLimit →
            ∃ report repaired, Regained opened spans whole.endOfFile report repaired ∧
              (settings.validateOnOpen = true →
                openFile damaged settings = (.ok repaired, damaged)) ∧
              ∀ (position : Nat) (span : Span), spans[position]? = some span → ∃ bytes,
                Returned whole indices repaired (whole.slots.length + position) span bytes ∧
                  ∀ index ∈ indices, whole.slots.shape[index]? = some (some span) →
                    ∀ data, container.read index = .ok data → data <+: bytes) ∧
          (SlotTable.indexLimit < whole.slots.length + spans.length →
            opened.validate.1 = .error (.overflow .slotIndices) ∧
              (settings.validateOnOpen = true →
                (openFile damaged settings).1 = .error (.overflow .slotIndices))) := by
  obtain ⟨whole, accepted, rfl, sound, openable, still, spares⟩ :=
    openFile_of_closed reached.sound closed user legal
  refine ⟨whole, accepted, fun indices inside => ?_⟩
  obtain ⟨opened, spans, bereft, found, file, same, laid⟩ := openable.load_forgetAll still inside
  refine ⟨opened, spans, _, rfl, bereft, ?_⟩
  generalize whole.file.eraseRecords whole.tableOffset indices = damaged at *
  have filled : damaged.size ≠ 0 := file ▸ laid.size_ne_zero
  refine ⟨fun quiet => openFile_of_load legal quiet filled found file, fun room => ?_,
    fun excess => ?_⟩
  · obtain ⟨report, repaired, regained⟩ :=
      validate_of_lost laid bereft.regions.ordered (bereft.length ▸ room)
    refine ⟨report, repaired, regained, fun eager => ?_, fun position span listed => ?_⟩
    · rw [openFile_of_validated legal eager filled found regained.validated, regained.file, file]
    · obtain ⟨bytes, returned⟩ := openable.returned inside bereft.regions bereft.length
        regained.slots (regained.tableIndex.trans bereft.tableIndex) (regained.file.trans same) listed
      refine ⟨bytes, returned, fun index member shaped data contents => ?_⟩
      obtain ⟨state, region, here, held, own⟩ := mem_spans_of_shape shaped
      rw [← (spares index).slice_eq reached.sound sound contents here held]
      exact returned.begins index member state region here held own
  · have failed := validate_of_excess laid bereft.regions.ordered
      (bereft.length ▸ sound.limited) (bereft.length ▸ excess)
    exact ⟨failed, fun eager => openFile_of_validate_error legal eager filled found failed⟩

theorem healing_of_first_entry :
    ∃ opened report repaired,
      openFile (((create {}).newEntry 5).2.flush.2.file.eraseRecords 0x258 [1]) {} =
          (.ok opened, ((create {}).newEntry 5).2.flush.2.file.eraseRecords 0x258 [1]) ∧
        opened.slots[1]? = some .unused ∧ opened.validate = (.ok report, repaired) ∧
          report.recovered = [3] ∧ (repaired.claim 3).1 = .ok () := by
  have legal : ContainerSettings.check {} = .ok () := by decide +kernel
  have reached : Reachable ((create {}).newEntry 5).2 :=
    .step (reachable_create legal) (.newEntry 5) rfl
  have done : ((create {}).newEntry 5).2.flush.1 = .ok () := by decide +kernel
  have slots : ((create {}).newEntry 5).2.flush.2.slots =
      [.unused, .live ⟨0x238, 0, 16⟩, .live ⟨0x258, 48, 800⟩] := by decide +kernel
  have table : ((create {}).newEntry 5).2.flush.2.tableIndex = some 2 := by decide +kernel
  have offset : ((create {}).newEntry 5).2.flush.2.tableOffset = 0x258 := by decide +kernel
  have root : ((create {}).newEntry 5).2.flush.2.root = none := by decide +kernel
  generalize ((create {}).newEntry 5).2 = container at *
  have closed := close_of_flush reached.sound done
  have clean := (close_ok reached.sound closed).2.1
  have user : ∀ index, container.flush.2.tableIndex = some index →
      container.flush.2.root ≠ some index := by
    rw [root]
    exact fun _ _ => nofun
  obtain ⟨reopened, accepted, heals⟩ := healing_of_lost_records reached closed user legal
  have same := openFile_of_clean reached.sound.flush clean user legal
  rw [accepted] at same
  cases same
  have states : (container.flush.2.reloaded {}).slots =
      [.unused, .live ⟨0x238, 0, 16⟩, .live ⟨0x258, 48, 800⟩] := by
    rw [Container.reloaded, slots]
    rfl
  have reserved : (container.flush.2.reloaded {}).tableIndex = some 2 := table
  have start : (container.flush.2.reloaded {}).tableOffset = 0x258 := offset
  obtain ⟨opened, spans, damaged, rfl, bereft, quietly, repair, _⟩ :=
    heals [1] (by rw [states, reserved]; decide)
  have regions := bereft.regions
  rw [states] at regions repair
  rw [start] at quietly
  have only : RegionsOf [.unused, .live ⟨0x238, 0, 16⟩, .live ⟨0x258, 48, 800⟩] [1] [⟨0x238, 16⟩] :=
    ⟨by simp, fun span => by simp [SlotTable.shape, Region.span, eq_comm]⟩
  cases regions.unique only
  obtain ⟨report, repaired, regained, _, claims⟩ := repair (by decide)
  obtain ⟨_, returned, _⟩ := claims 0 _ rfl
  have recovered := regained.recovered
  rw [bereft.length, states] at recovered
  exact ⟨opened, report, repaired, quietly rfl, bereft.slots 1, regained.validated, recovered,
    returned.claimed⟩

/-- A container with all but three slot indices in use is stored, with an index for its table. -/
theorem Even.flush (even : Even container 0xfffffffd) (sound : container.Sound) :
    container.flush.1 = .ok () := by
  have length : container.slots.length = 0xfffffffe := by
    rw [even.slots, length_evenSlots]
  have grows : container.slots.length <
      container.settings.tableRecords container.slots.length := by
    refine ContainerSettings.lt_tableRecords (by omega) (by omega) (Or.inl ?_)
    rw [even.settings]
    decide +kernel
  have records : container.settings.tableRecords container.slots.length = 0x13ffffffe := by
    rw [length, even.settings]
    decide +kernel
  have dirty : container.dirty = true := by
    by_contra clean
    obtain ⟨index, _, reserved, _⟩ := (sound.saved (by simpa using clean)).table
    rw [even.tableIndex] at reserved
    cases reserved
  have stop := even.endOfFile
  simp only [firstOffset] at stop
  refine flush_of_grows sound dirty grows ?_ ?_
  · rw [records, stop, SlotRecord.width]
    omega
  · rw [length, SlotTable.indexLimit]
    decide

/-- With all but two indices in use there are too few for three regions whose records are lost. -/
theorem healing_of_exhausted_indices_fails : ∃ container file whole opened, ∃ indices : List Nat,
    Reachable container ∧ container.close = (.ok (), file) ∧
      (∀ index, container.flush.2.tableIndex = some index →
        container.flush.2.root ≠ some index) ∧
      openFile file {} = (.ok whole, file) ∧
      (∀ index ∈ indices, index < whole.slots.length ∧ whole.tableIndex ≠ some index) ∧
      openFile (file.eraseRecords whole.tableOffset indices) {} =
        (.ok opened, file.eraseRecords whole.tableOffset indices) ∧
      opened.validate.1 = .error (.overflow .slotIndices) := by
  have legal : ContainerSettings.check {} = .ok () := by decide +kernel
  have reached := reachable_allocated 0xfffffffd
  have even := @even_allocated 0xfffffffd (by decide)
  generalize allocated 0xfffffffd = container at reached even
  have sound := reached.sound
  have closed := close_of_flush sound (even.flush sound)
  have user : ∀ index, container.flush.2.tableIndex = some index →
      container.flush.2.root ≠ some index := by
    rw [root_flush sound, even.root]
    exact fun _ _ => nofun
  obtain ⟨whole, accepted, same, wholeSound, openable, still, spares⟩ :=
    openFile_of_closed sound closed user legal
  -- the slots of users are the same afterwards, so there are as many at least
  have live {index : Nat} (inside : index < 0xfffffffd) :
      whole.tableIndex ≠ some (index + 1) ∧
        whole.slots[index + 1]? = some (.live ⟨firstOffset + 32 * index, 0, 16⟩) :=
    (liveRegion_eq_ok_iff.mp (spares _ _ (even.live inside)).1).2
  have long := (List.getElem?_eq_some_iff.mp (live (show 0xfffffffc < 0xfffffffd by decide)).2).1
  obtain ⟨firstUser, first⟩ := live (show 0 < 0xfffffffd by decide)
  obtain ⟨secondUser, second⟩ := live (show 1 < 0xfffffffd by decide)
  obtain ⟨thirdUser, third⟩ := live (show 2 < 0xfffffffd by decide)
  have inside : ∀ index ∈ [1, 2, 3], index < whole.slots.length ∧
      whole.tableIndex ≠ some index := by
    intro index member
    simp only [List.mem_cons, List.not_mem_nil, or_false] at member
    rcases member with rfl | rfl | rfl
    · exact ⟨by omega, firstUser⟩
    · exact ⟨by omega, secondUser⟩
    · exact ⟨by omega, thirdUser⟩
  obtain ⟨opened, spans, bereft, found, file, _, laid⟩ := openable.load_forgetAll still inside
  have three : RegionsOf whole.slots [1, 2, 3]
      [⟨firstOffset, 16⟩, ⟨firstOffset + 32, 16⟩, ⟨firstOffset + 64, 16⟩] := by
    refine ⟨by simp [Span.next], fun span => ?_⟩
    simp [SlotTable.getElem?_shape, SlotState.span?, SlotState.region?, Region.span, first, second,
      third, eq_comm]
  cases bereft.regions.unique three
  rw [same] at found file
  refine ⟨container, _, whole, opened, [1, 2, 3], reached, closed, user, accepted, inside,
    openFile_of_load legal rfl (file ▸ laid.size_ne_zero) found file, ?_⟩
  refine validate_of_excess laid three.ordered (bereft.length ▸ wholeSound.limited) ?_
  rw [bereft.length, SlotTable.indexLimit, List.length_cons, List.length_cons, List.length_singleton]
  omega

end Container

end SlotStore
