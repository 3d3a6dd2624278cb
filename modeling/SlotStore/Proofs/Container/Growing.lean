import SlotStore.Proofs.Container.Runs

/-!
What happens to a container between two flushes. Its slots stay where they are and its regions too;
new slots are added behind them and new regions at the end of the file. Header, slot table and guard
words are stored by a flush only, so until then the file keeps them.
-/

namespace SlotStore

/-- Every slot behind the sentinel holds a region. -/
def SlotTable.Filled (table : SlotTable) : Prop :=
  ∃ spans : List Span, table.shape = none :: spans.map some

namespace SlotTable.Filled

variable {table : SlotTable}

theorem used (filled : table.Filled) {index : Nat} {state : SlotState} (behind : 0 < index)
    (found : table[index]? = some state) : ∃ region, state.region? = some region := by
  obtain ⟨spans, shape⟩ := filled
  obtain ⟨position, rfl⟩ := Nat.exists_eq_succ_of_ne_zero (Nat.ne_of_gt behind)
  have here := table.getElem?_shape (position + 1)
  rw [shape, found, List.getElem?_cons_succ, List.getElem?_map] at here
  cases state with
  | unused => cases spans[position]? <;> simp at here
  | live region => exact ⟨region, rfl⟩
  | free region deletable => exact ⟨region, rfl⟩

theorem unusedIndex?_eq (filled : table.Filled) : table.unusedIndex? = none := by
  cases lowest : table.unusedIndex? with
  | none => rfl
  | some index =>
    obtain ⟨behind, unused⟩ := unused_of_unusedIndex lowest
    obtain ⟨region, held⟩ := filled.used behind unused
    cases held

theorem congr (filled : table.Filled) {new : SlotTable} (same : new.shape = table.shape) :
    new.Filled := by
  obtain ⟨spans, held⟩ := filled
  exact ⟨spans, same.trans held⟩

theorem of_shape_eq (filled : table.Filled) {new : SlotTable} {recorded : List Span}
    (shape : new.shape = table.shape ++ recorded.map some) : new.Filled := by
  obtain ⟨spans, held⟩ := filled
  exact ⟨spans ++ recorded, by rw [shape, held, List.map_append, List.cons_append]⟩

end SlotTable.Filled

namespace Container

/-- The way from one container to a later one whose slots and regions are those of the first one and
more: `recorded` are the spans of the new slots, `lost` those that no index was left for. -/
structure Advances (old new : Container) (recorded lost : List Span) : Prop where
  shape : SlotTable.shape new.slots = SlotTable.shape old.slots ++ recorded.map some
  tiles : Tiles old.endOfFile (recorded ++ lost) new.endOfFile
  laid : ∀ left, Laid old.file old.slots left old.endOfFile →
    Laid new.file new.slots (left ++ lost) new.endOfFile
  full : lost ≠ [] → new.slots.length = SlotTable.indexLimit
  limited : new.slots.length ≤ SlotTable.indexLimit

/-- A stretch of the file that no region of a user slot meets, and that ends before the zero word. -/
def Clear (container : Container) (pos count : Nat) : Prop :=
  pos + count + 8 ≤ container.endOfFile ∧
    ∀ (index : Nat) (span : Span), (SlotTable.shape container.slots)[index]? = some (some span) →
      container.tableIndex ≠ some index →
        pos + count ≤ span.offset ∨ span.offset + span.capacity ≤ pos

/-- A clear stretch meets no region that is added behind it either. -/
theorem Clear.outside {container : Container} {pos count : Nat} (clear : container.Clear pos count)
    {shape : List (Option Span)} {recorded lost : List Span} {stop : Nat}
    (grown : shape = SlotTable.shape container.slots ++ recorded.map some)
    (tiles : Tiles container.endOfFile (recorded ++ lost) stop) {index : Nat} {span : Span}
    (found : shape[index]? = some (some span)) (user : container.tableIndex ≠ some index) :
    pos + count ≤ span.offset ∨ span.offset + span.capacity ≤ pos := by
  obtain ⟨below, apart⟩ := clear
  rw [grown, List.getElem?_append] at found
  split at found
  · exact apart index span found user
  · rw [List.getElem?_map] at found
    obtain ⟨other, here, same⟩ := Option.map_eq_some_iff.mp found
    cases same
    have behind := (tiles.within (List.mem_append_left lost (List.mem_of_getElem? here))).1
    exact Or.inl (by omega)

/-- What no user slot has room for stays clear, and keeps its bytes. -/
def Untouched (old new : Container) : Prop :=
  ∀ pos count, old.Clear pos count →
    new.Clear pos count ∧ new.file.slice pos count = old.file.slice pos count

theorem Untouched.trans {first second third : Container} (left : Untouched first second)
    (right : Untouched second third) : Untouched first third := by
  intro pos count clear
  obtain ⟨still, same⟩ := left pos count clear
  obtain ⟨again, sameAgain⟩ := right pos count still
  exact ⟨again, sameAgain.trans same⟩

namespace Advances

variable {first second third : Container} {recorded lost : List Span}

theorem length_eq (advances : Advances first second recorded lost) :
    second.slots.length = first.slots.length + recorded.length :=
  SlotTable.length_of_shape_append advances.shape

/-- Where neither the slots nor the end of the file move, only the layout has to be kept. -/
theorem of_shape_eq (shape : SlotTable.shape second.slots = SlotTable.shape first.slots)
    (stop : second.endOfFile = first.endOfFile)
    (laid : ∀ left, Laid first.file first.slots left first.endOfFile →
      Laid second.file second.slots left second.endOfFile)
    (limited : first.slots.length ≤ SlotTable.indexLimit) : Advances first second [] [] where
  shape := by rw [shape, List.map_nil, List.append_nil]
  tiles := stop.symm
  laid := fun left held => (List.append_nil left).symm ▸ laid left held
  full := fun some => absurd rfl some
  limited := SlotTable.length_of_shape_eq shape ▸ limited

theorem refl (limited : first.slots.length ≤ SlotTable.indexLimit) : Advances first first [] [] :=
  of_shape_eq rfl rfl (fun _ laid => laid) limited

theorem trans {recordedAfter lostAfter : List Span} (left : Advances first second recorded lost)
    (right : Advances second third recordedAfter lostAfter) :
    Advances first third (recorded ++ recordedAfter) (lost ++ lostAfter) := by
  have limited := right.limited
  have length := right.length_eq
  have none (some : lost ≠ []) : recordedAfter = [] ∧ third.slots.length = SlotTable.indexLimit := by
    have full := left.full some
    exact ⟨List.length_eq_zero_iff.mp (by omega), by omega⟩
  exact {
    shape := by rw [right.shape, left.shape, List.map_append, List.append_assoc]
    tiles := by
      have both := left.tiles.append right.tiles
      by_cases kept : lost = []
      · simpa [kept] using both
      · simpa [(none kept).1] using both
    laid := fun rest laid => by
      rw [← List.append_assoc]
      exact right.laid _ (left.laid rest laid)
    full := fun some => by
      by_cases kept : lost = []
      · exact right.full (by simpa [kept] using some)
      · exact (none kept).2
    limited := limited }

theorem clear (advances : Advances first second recorded lost)
    (table : second.tableIndex = first.tableIndex) {pos count : Nat} (clear : first.Clear pos count) :
    second.Clear pos count := by
  have below := clear.1
  have grown := advances.tiles.start_le
  exact ⟨by omega, fun index span found user =>
    clear.outside advances.shape advances.tiles found (table ▸ user)⟩

theorem untouched (advances : Advances first second recorded lost)
    (table : second.tableIndex = first.tableIndex)
    (same : ∀ pos count, first.Clear pos count →
      second.file.slice pos count = first.file.slice pos count) : Untouched first second :=
  fun pos count clear => ⟨advances.clear table clear, same pos count clear⟩

end Advances

/-- A later container with the same table slot, whose file keeps what was stored. -/
structure Grows (old new : Container) : Prop where
  advances : ∃ recorded lost, Advances old new recorded lost
  table : new.tableIndex = old.tableIndex
  untouched : Untouched old new

theorem Grows.trans {first second third : Container} (left : Grows first second)
    (right : Grows second third) : Grows first third := by
  obtain ⟨_, _, advances⟩ := left.advances
  obtain ⟨_, _, advancesAfter⟩ := right.advances
  exact {
    advances := ⟨_, _, advances.trans advancesAfter⟩
    table := right.table.trans left.table
    untouched := left.untouched.trans right.untouched }

variable {container : Container}

/-- Where neither slots nor end of file move, the layout and the clear stretches have to be kept. -/
theorem grows_of_shape_eq (sound : container.Sound) {new : Container}
    (shape : SlotTable.shape new.slots = SlotTable.shape container.slots)
    (stop : new.endOfFile = container.endOfFile) (table : new.tableIndex = container.tableIndex)
    (laid : ∀ left, Laid container.file container.slots left container.endOfFile →
      Laid new.file new.slots left new.endOfFile)
    (same : ∀ pos count, container.Clear pos count →
      new.file.slice pos count = container.file.slice pos count) : Grows container new :=
  have advances := Advances.of_shape_eq shape stop laid sound.limited
  ⟨⟨[], [], advances⟩, table, advances.untouched table same⟩

theorem Grows.refl (sound : container.Sound) : Grows container container :=
  grows_of_shape_eq sound rfl rfl rfl (fun _ laid => laid) (fun _ _ _ => rfl)

theorem placeRegion_of_filled (filled : SlotTable.Filled container.slots) (region : Region) :
    (container.slots.length < SlotTable.indexLimit ∧ container.placeRegion region =
      (.ok container.slots.length,
        { container with slots := container.slots ++ [.live region], dirty := true })) ∨
      (SlotTable.indexLimit ≤ container.slots.length ∧
        container.placeRegion region = (.error (.overflow .slotIndices), container)) := by
  rcases container.placeRegion_cases region with ⟨index, slots, taken, placed⟩ | full
  · rcases SlotTable.acquire_ok taken with ⟨lowest, _⟩ | ⟨_, room, rfl, rfl⟩
    · rw [filled.unusedIndex?_eq] at lowest
      cases lowest
    · refine Or.inl ⟨room, ?_⟩
      rw [placed]
      simp
  · exact Or.inr full

/-- A region at the end of a grown file gets a new slot or, where the table is full, none. -/
theorem advances_placed {grown : Container} {region : Region}
    (filled : SlotTable.Filled container.slots)
    (limited : container.slots.length ≤ SlotTable.indexLimit) (slots : grown.slots = container.slots)
    (tiles : Tiles container.endOfFile [region.span] grown.endOfFile)
    (laid : ∀ left, Laid container.file container.slots left container.endOfFile →
      Laid grown.file container.slots (region.span :: left) grown.endOfFile)
    (fits : region.size ≤ region.capacity) :
    ∃ recorded lost, Advances container (grown.placeRegion region).2 recorded lost := by
  rcases placeRegion_of_filled (slots ▸ filled) region with ⟨room, placed⟩ | ⟨full, refused⟩
  · rw [slots] at room placed
    refine ⟨[region.span], [], ?_⟩
    rw [placed]
    exact {
      shape := by simp [SlotTable.shape]
      tiles := tiles
      laid := by
        intro left held
        rw [List.append_nil]
        refine (laid left held).recast ?_ ?_ ?_
        · rw [List.getElem?_append_left (List.getElem?_eq_some_iff.mp held.sentinel).1]
          exact held.sentinel
        · intro state member own holds
          rcases List.mem_append.mp member with old | fresh
          · exact held.sized state old own holds
          · obtain rfl := List.mem_singleton.mp fresh
            cases holds
            exact fits
        · simp only [SlotTable.spans, List.filterMap_append, List.filterMap_cons,
            SlotState.span?_live, List.filterMap_nil, List.append_assoc, List.singleton_append]
          exact List.Perm.refl _
      full := fun some => absurd rfl some
      limited := by
        simp only [List.length_append, List.length_singleton]
        exact room }
  · rw [slots] at full
    refine ⟨[], [region.span], ?_⟩
    rw [refused]
    exact {
      shape := by simp [slots]
      tiles := tiles
      laid := fun left held => by
        rw [slots]
        exact (laid left held).recast held.sentinel held.sized
          ((List.perm_append_singleton _ left).append_left _)
      full := fun _ => slots ▸ Nat.le_antisymm limited full
      limited := slots ▸ limited }

/-- Appending a region stores nothing below the zero word that stood at the end of the file. -/
theorem grows_appended (sound : container.Sound) (filled : SlotTable.Filled container.slots)
    {size capacity : Nat} (legal : Span.Legal ⟨container.endOfFile, capacity⟩)
    (small : container.endOfFile + capacity + 16 < 2 ^ 64) (fits : size ≤ capacity) :
    Grows container
      ((container.extended capacity).placeRegion ⟨container.endOfFile, size, capacity⟩).2 := by
  obtain ⟨_, held, _⟩ := sound.laid
  have low := held.first_le
  simp only [firstOffset] at low
  obtain ⟨_, agree, _⟩ := Laid.appended container.file (by omega) held.held legal.2.2
  have file := extended_file container capacity
  have stop := extended_endOfFile container capacity
  have table := extended_tableIndex container capacity
  have slots := extended_slots container capacity
  generalize container.extended capacity = grown at file stop table slots ⊢
  have tiles : Tiles container.endOfFile [Region.span ⟨container.endOfFile, size, capacity⟩]
      grown.endOfFile := stop ▸ tiles_single container.endOfFile capacity
  obtain ⟨recorded, lost, advances⟩ := advances_placed filled sound.limited slots tiles
    (fun left laid => by
      rw [file, stop]
      exact laid.extend legal small) fits
  have same := (grown.placeRegion_tableIndex ⟨container.endOfFile, size, capacity⟩).trans table
  refine ⟨⟨recorded, lost, advances⟩, same, advances.untouched same fun pos count clear => ?_⟩
  rw [placeRegion_file, file]
  exact agree.same pos count (by have := clear.1; omega)

theorem grows_setState (sound : container.Sound) {index : Nat} {old new : SlotState}
    (found : container.slots[index]? = some old) (same : new.span? = old.span?)
    (fits : ∀ region, new.region? = some region → region.size ≤ region.capacity) :
    Grows container (container.setState index new) :=
  grows_of_shape_eq sound (SlotTable.shape_set found same) rfl rfl
    (fun _ laid => laid.restate found same fits) (fun _ _ _ => rfl)

theorem grows_newEntry (sound : container.Sound) (filled : SlotTable.Filled container.slots)
    (size : Nat) : Grows container (container.newEntry size).2 := by
  rcases container.newEntry_cases size with
    ⟨_, refused⟩ | ⟨index, region, deletable, found, _, reused⟩ | ⟨capacity, granted, small, appended⟩
  · rw [refused]
    exact Grows.refl sound
  · rw [reused]
    refine grows_setState sound found rfl ?_
    intro fresh held
    cases held
    exact Nat.zero_le _
  · rw [appended]
    have legal := (legal_of_alignedCapacity granted container.endOfFile).2
    exact grows_appended sound filled legal small (Nat.zero_le _)

theorem grows_agree (sound : container.Sound) {file : File}
    (same : File.AgreesBelow container.endOfFile container.file file) (appendInFlight : Bool) :
    Grows container { container with file := file, appendInFlight := appendInFlight } :=
  grows_of_shape_eq sound rfl rfl rfl (fun _ laid => laid.agree same)
    (fun pos count clear => same.same pos count (by have := clear.1; omega))

theorem grows_adoptStream (sound : container.Sound) (filled : SlotTable.Filled container.slots)
    (written : Nat) : Grows container (container.adoptStream written).2 := by
  rcases container.adoptStream_cases written with ⟨_, refused⟩ | ⟨capacity, granted, small, adopted⟩
  · rw [refused]
    exact Grows.refl sound
  · obtain ⟨room, legal⟩ := legal_of_alignedCapacity granted container.endOfFile
    rw [adopted]
    exact grows_appended sound filled legal small room

theorem grows_appendEntry (sound : container.Sound) (filled : SlotTable.Filled container.slots)
    (acts : List AppendAct) (ending : AppendEnd) :
    Grows container (container.appendEntry acts ending).2 := by
  obtain ⟨_, file, same, ⟨_, inFlight, left, _⟩ | ⟨written, left⟩⟩ :=
    container.appendEntry_cases acts ending
  · rw [left]
    exact grows_agree sound (same sound) inFlight
  · rw [left]
    exact (grows_agree sound (same sound) _).trans
      (grows_adoptStream (sound.agree (same sound)) filled written)

/-- Bytes changed inside the region of a user slot do not reach a clear stretch. -/
theorem grows_rewrite (sound : container.Sound) {index : Nat} {region : Region} {file : File}
    (live : container.liveRegion index = .ok region)
    (inside : File.AgreesOutside region.offset (region.offset + region.capacity) container.file file)
    (size : Nat) : Grows container ({ container with file := file }.setSize index size) := by
  obtain ⟨_, user, here⟩ := liveRegion_eq_ok_iff.mp live
  obtain ⟨_, held, _⟩ := sound.laid
  rw [rewrite_eq here]
  refine grows_of_shape_eq sound (SlotTable.shape_set here rfl) rfl rfl ?_ ?_
  · intro left laid
    refine (laid.fill (laid.mem here rfl) inside).restate here rfl ?_
    intro resized holds
    cases holds
    exact Nat.min_le_right _ _
  · intro pos count clear
    have apart := clear.2 index region.span (by simp [here]) user
    have below := clear.1
    have filled := held.held
    exact inside.same pos count (by omega) apart

theorem grows_write (sound : container.Sound) (index : Nat) (data : Bytes) (pos : Nat) :
    Grows container (container.write index data pos).2 := by
  rcases container.write_cases index data pos with ⟨_, refused⟩ | ⟨region, live, fits, written⟩
  · rw [refused]
    exact Grows.refl sound
  · rw [written]
    exact grows_rewrite sound live
      (File.AgreesOutside.write container.file (by omega) (by omega)) _

theorem grows_view (sound : container.Sound) (index : Nat) (acts : List WriterAct) :
    Grows container (container.view index acts) := by
  rcases container.view_cases index acts with same | ⟨writer, moved, file, made, inside, viewed⟩
  · rw [same]
    exact Grows.refl sound
  · obtain ⟨region, live, rfl⟩ := writer_eq_ok_iff.mp made
    have agrees := inside.agrees
    rw [viewed, closeWriter, inside.index]
    exact grows_rewrite sound live agrees _

theorem grows_restated (sound : container.Sound) {index : Nat} {new : Container}
    (restated : Restated index container new) : Grows container new := by
  rcases restated with rfl | ⟨before, after, region, user, old, same, rfl⟩
  · exact Grows.refl sound
  · obtain ⟨_, _, here, _⟩ := slotOf_eq_ok_iff.mp user
    obtain ⟨_, laid, _⟩ := sound.laid
    refine grows_setState sound here (by simp [SlotState.span?, old, same]) ?_
    intro held holds
    cases Option.some.inj (same.symm.trans holds)
    exact laid.size_le here old

theorem grows_setRoot (sound : container.Sound) (index : Nat) :
    Grows container (container.setRoot index).2 := by
  rcases container.setRoot_cases index with ⟨_, refused⟩ | ⟨_, _, anchored⟩
  · rw [refused]
    exact Grows.refl sound
  · rw [anchored]
    exact grows_of_shape_eq sound rfl rfl rfl (fun _ laid => laid) (fun _ _ _ => rfl)

theorem shape_releaseTable (sound : container.Sound) :
    SlotTable.shape container.releaseTable.slots = SlotTable.shape container.slots := by
  rcases releaseTable_cases sound with ⟨_, same⟩ | ⟨index, region, _, here, released⟩
  · rw [same]
  · rw [released]
    exact SlotTable.shape_set here rfl

theorem advances_moveTable (sound : container.Sound) (dirty : container.dirty = true)
    (filled : SlotTable.Filled container.slots) :
    ∃ recorded lost, Advances container container.moveTable.2 recorded lost := by
  have released : Advances container container.releaseTable [] [] := by
    refine Advances.of_shape_eq (shape_releaseTable sound) ?_ ?_ sound.limited
    · rcases releaseTable_cases sound with ⟨_, same⟩ | ⟨_, _, _, _, same⟩ <;> rw [same]
    · intro left laid
      rcases releaseTable_cases sound with ⟨_, same⟩ | ⟨index, region, _, here, same⟩
      · rw [same]
        exact laid
      · rw [same]
        refine laid.restate here rfl ?_
        intro held holds
        cases holds
        exact laid.size_le here rfl
  have grown (size : Nat) := (grows_newEntry (sound.releaseTable dirty)
    (filled.of_shape_eq released.shape) size).advances
  obtain ⟨size, ⟨_, _, refused⟩ | ⟨index, _, moved⟩⟩ := container.moveTable_cases
  · obtain ⟨recorded, lost, advances⟩ := grown size
    rw [refused]
    exact ⟨_, _, released.trans advances⟩
  · obtain ⟨recorded, lost, advances⟩ := grown size
    have both := released.trans advances
    rw [moved]
    exact ⟨_, _, { both with }⟩

theorem advances_settleTable (sound : container.Sound) (dirty : container.dirty = true)
    (filled : SlotTable.Filled container.slots) (budget : Nat) :
    ∃ recorded lost, Advances container (container.settleTable budget).2 recorded lost := by
  have settled : Moved container (container.settleTable budget).2 ∧
      ∃ recorded lost, Advances container (container.settleTable budget).2 recorded lost := by
    refine of_settleTable (motive := fun new => Moved container new ∧
      ∃ recorded lost, Advances container new recorded lost) ?_
      ⟨Moved.refl sound dirty, [], [], Advances.refl sound.limited⟩ budget
    rintro before ⟨moved, recorded, lost, advances⟩
    obtain ⟨_, _, onward⟩ :=
      advances_moveTable moved.sound moved.dirty (filled.of_shape_eq advances.shape)
    exact ⟨moved.trans (moved_moveTable moved.sound moved.dirty), _, _, advances.trans onward⟩
  exact settled.2

theorem advances_sealTable (sound : container.Sound) {index : Nat} {region : Region}
    (here : container.slots[index]? = some (.live region)) :
    Advances container (container.sealTable index region) [] [] := by
  rw [sealTable_eq here]
  refine Advances.of_shape_eq (SlotTable.shape_set here rfl) rfl (fun _ laid => ?_) sound.limited
  refine laid.restate here rfl ?_
  intro held holds
  cases holds
  exact Nat.min_le_right _ _

theorem advances_flush (sound : container.Sound) (filled : SlotTable.Filled container.slots) :
    ∃ recorded lost, Advances container container.flush.2 recorded lost := by
  cases dirty : container.dirty with
  | false =>
    rw [flush_of_clean dirty]
    exact ⟨[], [], Advances.refl sound.limited⟩
  | true =>
    obtain ⟨moved, _⟩ := moved_ensureTable sound dirty
    obtain ⟨_, _, advances⟩ := advances_settleTable sound dirty filled (SlotTable.indexLimit + 2)
    rcases flush_ensured sound dirty with
      ⟨_, failed⟩ | ⟨index, region, _, reserved, here, ready, written⟩
    · rw [failed]
      exact ⟨_, _, advances⟩
    · have seals := (moved_sealTable moved.sound reserved here).sound
      have sealedOnce := advances.trans (advances_sealTable moved.sound here)
      rw [written]
      exact ⟨_, _, sealedOnce.trans (Advances.of_shape_eq rfl rfl
        (fun _ laid => (stored_flushWrites laid ready).laid laid ready) seals.limited)⟩

end Container

/-- The operation may store the slot table. -/
def ContainerAct.Stores : ContainerAct → Prop
  | .flush | .reopen _ => True
  | _ => False

namespace Container

variable {container : Container}

/-- Whatever stores nothing lets the container grow. -/
theorem grows_perform (sound : container.Sound) (filled : SlotTable.Filled container.slots)
    {act : ContainerAct} {next : Container} (performed : container.perform act = some next)
    (unstored : ¬act.Stores) : Grows container next := by
  cases act with
  | newEntry size => exact Option.some.inj performed ▸ grows_newEntry sound filled size
  | append acts ending =>
    exact Option.some.inj performed ▸ grows_appendEntry sound filled acts ending
  | view index acts => exact Option.some.inj performed ▸ grows_view sound index acts
  | write index data pos => exact Option.some.inj performed ▸ grows_write sound index data pos
  | release index =>
    exact Option.some.inj performed ▸ grows_restated sound (restated_release _ index)
  | claim index => exact Option.some.inj performed ▸ grows_restated sound (restated_claim _ index)
  | delete index => exact Option.some.inj performed ▸ grows_restated sound (restated_delete _ index)
  | setRoot index => exact Option.some.inj performed ▸ grows_setRoot sound index
  | validate =>
    rw [← Option.some.inj performed, sound.validate_eq]
    exact Grows.refl sound
  | flush => exact absurd trivial unstored
  | reopen settings => exact absurd trivial unstored

/-- Operations one after another, none of which stores the slot table. -/
inductive Unstored (base : Container) : Container → Prop where
  | start : Unstored base base
  | step {now next : Container} (run : Unstored base now) (act : ContainerAct)
      (performed : now.perform act = some next) (unstored : ¬act.Stores) : Unstored base next

theorem Grows.filled {new : Container} (grows : Grows container new)
    (filled : SlotTable.Filled container.slots) : SlotTable.Filled new.slots := by
  obtain ⟨_, _, advances⟩ := grows.advances
  exact filled.of_shape_eq advances.shape

theorem filled_create (settings : ContainerSettings) :
    SlotTable.Filled (create settings).slots :=
  ⟨[], rfl⟩

/-- Every slot behind the sentinel of a container that can be reached holds a region. -/
theorem Reachable.filled (reached : Reachable container) : SlotTable.Filled container.slots := by
  induction reached with
  | created opened =>
    rename_i settings _ _
    obtain ⟨legal, _⟩ := openFile_ok opened
    rw [openFile_empty legal] at opened
    rw [← Except.ok.inj (Prod.mk.inj opened).1]
    exact filled_create settings
  | step reached act performed filled =>
    have flushed := advances_flush reached.sound filled
    cases act with
    | flush =>
      obtain ⟨_, _, advances⟩ := flushed
      exact Option.some.inj performed ▸ filled.of_shape_eq advances.shape
    | reopen settings =>
      obtain ⟨_, _, advances⟩ := flushed
      obtain ⟨_, _, _, rfl⟩ := (reopen_eq_some_iff reached.sound).mp performed
      exact (filled.of_shape_eq advances.shape).congr (shape_unmarked _)
    | _ => exact (grows_perform reached.sound filled performed id).filled filled

/-- A container grows along such a run, and stays sound. -/
theorem Unstored.grows (sound : container.Sound) (filled : SlotTable.Filled container.slots)
    {now : Container} (run : Unstored container now) : now.Sound ∧ Grows container now := by
  induction run with
  | start => exact ⟨sound, Grows.refl sound⟩
  | step _ _ performed unstored ih =>
    obtain ⟨reached, grown⟩ := ih
    exact ⟨reached.perform performed,
      grown.trans (grows_perform reached (grown.filled filled) performed unstored)⟩

end Container

end SlotStore
