import SlotStore.Proofs.Container.Entries
import SlotStore.Proofs.Container.Opening
import SlotStore.Proofs.Container.TableGrowth
import SlotStore.Proofs.Container.Validation

/-!
What operations on slots need of a container, whatever the file behind it holds: the sentinel is
unused, and the slot table's own slot is live. A file that is opened gives such a container, under
any settings, and every operation that is carried out on one leaves one, whether it succeeds or not.
Then an allocation that succeeds answers a live slot of a user, and one that fails while there are
indices left changes nothing.
-/

namespace SlotStore.Container

variable {container new : Container}

/-- The sentinel is unused, and the slot of the slot table is live if there is one. -/
structure Ready (container : Container) : Prop where
  sentinel : container.slots[0]? = some .unused
  table : ∀ index, container.tableIndex = some index → SlotTable.LiveAt container.slots index

namespace Ready

theorem filled (ready : container.Ready) : container.slots ≠ [] :=
  SlotTable.filled_of_sentinel ready.sentinel

theorem of_grounded (grounded : container.Grounded) : container.Ready where
  sentinel := grounded.sentinel
  table := by
    intro index reserved
    obtain ⟨region, live, _⟩ := grounded.table index reserved
    exact ⟨region, live⟩

theorem congr (ready : container.Ready) (slots : new.slots = container.slots)
    (table : new.tableIndex = container.tableIndex) : new.Ready where
  sentinel := slots ▸ ready.sentinel
  table := by
    rw [slots, table]
    exact ready.table

theorem index_ne_zero (ready : container.Ready) {index : Nat} {state : SlotState}
    (found : container.slots[index]? = some state) (used : state ≠ .unused) : index ≠ 0 := by
  rintro rfl
  exact used (Option.some.inj (found.symm.trans ready.sentinel))

theorem setState (ready : container.Ready) {index : Nat} {old state : SlotState}
    (found : container.slots[index]? = some old) (used : old ≠ .unused)
    (live : container.tableIndex = some index → ∃ region, state = .live region) :
    (container.setState index state).Ready where
  sentinel := (List.getElem?_set_ne (ready.index_ne_zero found used)).trans ready.sentinel
  table := by
    intro other reserved
    have bound := (List.getElem?_eq_some_iff.mp found).1
    refine (SlotTable.liveAt_set bound state other).mpr ?_
    split
    · rename_i same
      exact live (same ▸ reserved)
    · exact ready.table other reserved

theorem setSize (ready : container.Ready) (index size : Nat) :
    (container.setSize index size).Ready := by
  cases found : container.slots[index]? with
  | none =>
    unfold Container.setSize
    simp only [found]
    exact ready
  | some state =>
    cases state with
    | unused =>
      unfold Container.setSize
      simp only [found]
      exact ready
    | live region =>
      rw [setSize_eq container found rfl]
      exact ready.setState found nofun fun _ => ⟨_, rfl⟩
    | free region deletable =>
      rw [setSize_eq container found rfl]
      refine ready.setState found nofun fun reserved => ?_
      obtain ⟨held, live⟩ := ready.table index reserved
      cases found.symm.trans live

theorem rewrite (ready : container.Ready) (file : File) (index size : Nat) :
    ({ container with file := file }.setSize index size).Ready := by
  have moved : Ready { container with file := file } := ready.congr rfl rfl
  exact moved.setSize index size

theorem restated (ready : container.Ready) {index : Nat} (restated : Restated index container new) :
    new.Ready := by
  rcases restated with rfl | ⟨before, after, region, user, _, _, rfl⟩
  · exact ready
  · obtain ⟨_, free, found, used⟩ := slotOf_eq_ok_iff.mp user
    exact ready.setState found used fun reserved => absurd reserved free

theorem release (ready : container.Ready) (index : Nat) : (container.release index).2.Ready :=
  ready.restated (restated_release container index)

theorem write (ready : container.Ready) (index : Nat) (data : Bytes) (pos : Nat) :
    (container.write index data pos).2.Ready := by
  rcases container.write_cases index data pos with ⟨_, refused⟩ | ⟨region, _, _, written⟩
  · rw [refused]
    exact ready
  · rw [written]
    exact ready.rewrite _ index _

theorem fill (ready : container.Ready) (index : Nat) (data : Bytes) :
    (container.fill index data).2.Ready := by
  rcases container.fill_cases index data with ⟨_, refused⟩ | ⟨_, moved, file, _, _, filled⟩
  · rw [refused]
    exact ready
  · rw [filled]
    exact ready.rewrite file moved.index moved.highWater

theorem setRoot (ready : container.Ready) (index : Nat) : (container.setRoot index).2.Ready := by
  rcases container.setRoot_cases index with ⟨_, refused⟩ | ⟨_, _, anchored⟩
  · rw [refused]
    exact ready
  · rw [anchored]
    exact ready.congr rfl rfl

theorem placeRegion (ready : container.Ready) (region : Region) :
    (container.placeRegion region).2.Ready := by
  rcases container.placeRegion_cases region with ⟨index, slots, taken, placed⟩ | ⟨_, refused⟩
  · have got := SlotTable.acquired ready.filled taken
    rw [placed]
    constructor
    · exact (List.getElem?_set_ne (Nat.ne_of_gt got.pos)).trans (got.same 0 _ ready.sentinel)
    · intro other reserved
      obtain ⟨held, live⟩ := ready.table other reserved
      refine ⟨held, ?_⟩
      rw [List.getElem?_set_ne (got.fresh other _ live nofun).symm]
      exact got.same other _ live
  · rw [refused]
    exact ready

theorem newEntry (ready : container.Ready) (size : Nat) : (container.newEntry size).2.Ready := by
  rcases container.newEntry_cases size with
    ⟨_, refused⟩ | ⟨_, _, _, found, _, reused⟩ | ⟨capacity, _, _, appended⟩
  · rw [refused]
    exact ready
  · rw [reused]
    exact ready.setState found nofun fun _ => ⟨_, rfl⟩
  · rw [appended]
    have grown : (container.extended capacity).Ready := ready.congr rfl rfl
    exact grown.placeRegion _

theorem releaseTable (ready : container.Ready) : container.releaseTable.Ready where
  sentinel := by
    unfold Container.releaseTable
    split
    · rename_i reserved table
      obtain ⟨index, named, here⟩ := tableRegion?_eq_some_iff.mp table
      cases reserved.symm.trans named
      exact (List.getElem?_set_ne (ready.index_ne_zero here nofun)).trans ready.sentinel
    · exact ready.sentinel
  table := by
    rw [releaseTable_tableIndex]
    exact nofun

theorem moveTable (ready : container.Ready) : container.moveTable.2.Ready := by
  have released := ready.releaseTable
  obtain ⟨size, ⟨_, _, refused⟩ | ⟨index, made, moved⟩⟩ := container.moveTable_cases
  · rw [refused]
    exact released.newEntry size
  · rw [moved]
    constructor
    · exact (released.newEntry size).sentinel
    · intro other reserved
      cases reserved
      exact (liveAt_newEntry released.filled made index).mpr (Or.inl rfl)

theorem flush (ready : container.Ready) : container.flush.2.Ready :=
  of_flush (fun _ ready => ready.moveTable) (fun _ index size ready => ready.setSize index size)
    (fun _ _ slots table _ ready => ready.congr slots table) ready

end Ready

/-- A file that is opened gives such a container, whatever is in it and whether it is validated. -/
theorem ready_of_opened {file after : File} {settings : ContainerSettings} {opened : Container}
    (accepted : openFile file settings = (.ok opened, after)) : opened.Ready := by
  unfold openFile at accepted
  split at accepted
  · cases accepted
  split at accepted
  · rw [← Except.ok.inj (Prod.mk.inj accepted).1]
    exact .of_grounded (grounded_of_unlisted rfl rfl rfl rfl)
  split at accepted
  · cases accepted
  rename_i loaded found
  have ready := Ready.of_grounded (load_ok found).1
  split at accepted
  · split at accepted
    · cases accepted
    · rename_i validated
      cases accepted
      exact ⟨(placed_of_validated validated).sentinel,
        fun _ reserved => table_of_validated validated ready.table reserved⟩
  · cases accepted
    exact ready

theorem newEntry_error_eq (room : container.slots.length < SlotTable.indexLimit) {size : Nat}
    {fault : Fault} (refused : container.newEntry size = (.error fault, new)) :
    new = container := by
  rcases container.newEntry_cases size with
    ⟨_, same⟩ | ⟨_, _, _, _, _, reused⟩ | ⟨capacity, _, _, appended⟩
  · exact congrArg Prod.snd (refused.symm.trans same)
  · cases refused.symm.trans reused
  · obtain ⟨_, _, _, placed⟩ := (container.extended capacity).placeRegion_of_room room
      ⟨container.endOfFile, 0, capacity⟩
    cases refused.symm.trans (appended.trans placed)

theorem Ready.liveRegion_newEntry (ready : container.Ready) {size slot : Nat}
    (made : container.newEntry size = (.ok slot, new)) :
    ∃ region, new.liveRegion slot = .ok region ∧ size ≤ region.capacity := by
  have apart (live : ¬SlotTable.LiveAt container.slots slot) : container.tableIndex ≠ some slot :=
    fun reserved => live (ready.table slot reserved)
  rcases container.newEntry_cases size with
    ⟨_, refused⟩ | ⟨index, region, _, found, fits, reused⟩ | ⟨capacity, granted, _, appended⟩
  · cases made.symm.trans refused
  · cases made.symm.trans reused
    have bound := (List.getElem?_eq_some_iff.mp found).1
    refine ⟨{ region with size := 0 }, liveRegion_eq_ok_iff.mpr
      ⟨ready.index_ne_zero found nofun, apart ?_, List.getElem?_set_self bound⟩, fits⟩
    rintro ⟨held, live⟩
    cases found.symm.trans live
  · have room := (legal_of_alignedCapacity granted 0).1
    rcases (container.extended capacity).placeRegion_cases ⟨container.endOfFile, 0, capacity⟩ with
      ⟨index, slots, taken, placed⟩ | ⟨_, full⟩
    · cases made.symm.trans (appended.trans placed)
      rw [extended_slots] at taken
      have got := SlotTable.acquired ready.filled taken
      have bound := (List.getElem?_eq_some_iff.mp got.unused).1
      refine ⟨⟨container.endOfFile, 0, capacity⟩, liveRegion_eq_ok_iff.mpr
        ⟨Nat.ne_of_gt got.pos, apart ?_, List.getElem?_set_self bound⟩, room⟩
      rintro ⟨held, live⟩
      exact got.fresh slot _ live nofun rfl
    · cases made.symm.trans (appended.trans full)

/-- Users may name the slot: it is in use, and neither the sentinel nor the slot table's. -/
def Named (container : Container) (index : Nat) : Prop :=
  ∃ state, container.slotOf index = .ok state

theorem named_iff {index : Nat} : container.Named index ↔
    index ≠ 0 ∧ container.tableIndex ≠ some index ∧
      ∃ state, container.slots[index]? = some state ∧ state ≠ .unused := by
  unfold Named
  simp only [slotOf_eq_ok_iff]
  constructor
  · rintro ⟨state, behind, user, found, used⟩
    exact ⟨behind, user, state, found, used⟩
  · rintro ⟨behind, user, state, found, used⟩
    exact ⟨state, behind, user, found, used⟩

theorem named_of_entryCapacity {index capacity : Nat}
    (told : container.entryCapacity index = .ok capacity) : container.Named index := by
  unfold entryCapacity regionOf at told
  cases user : container.slotOf index with
  | error fault =>
    rw [user] at told
    cases told
  | ok state => exact ⟨state, user⟩

namespace Named

variable {index : Nat}

/-- A slot stays in use whatever another state is given to a slot, as long as that is a state of use. -/
theorem setState (named : container.Named index) (other : Nat) {state : SlotState}
    (used : state ≠ .unused) : (container.setState other state).Named index := by
  obtain ⟨behind, user, held, found, usedBefore⟩ := named_iff.mp named
  refine named_iff.mpr ⟨behind, user, ?_⟩
  by_cases same : other = index
  · subst same
    exact ⟨state, List.getElem?_set_self (List.getElem?_eq_some_iff.mp found).1, used⟩
  · exact ⟨held, (List.getElem?_set_ne same).trans found, usedBefore⟩

theorem newEntry (named : container.Named index) (filled : container.slots ≠ []) (size : Nat) :
    (container.newEntry size).2.Named index := by
  rcases container.newEntry_cases size with
    ⟨_, refused⟩ | ⟨other, _, _, _, _, reused⟩ | ⟨capacity, _, _, appended⟩
  · rw [refused]
    exact named
  · rw [reused]
    exact named.setState other nofun
  · rw [appended]
    rcases (container.extended capacity).placeRegion_cases ⟨container.endOfFile, 0, capacity⟩ with
      ⟨other, slots, taken, placed⟩ | ⟨_, full⟩
    · rw [placed]
      obtain ⟨behind, user, state, found, used⟩ := named_iff.mp named
      rw [extended_slots] at taken
      have got := SlotTable.acquired filled taken
      refine named_iff.mpr ⟨behind, user, state, ?_, used⟩
      exact (List.getElem?_set_ne (got.fresh index state found used).symm).trans
        (got.same index state found)
    · rw [full]
      exact named

/-- Contents that fit a live slot are stored there, and no slot goes out of use. -/
theorem fill (named : container.Named index) {slot : Nat} {region : Region}
    (live : container.liveRegion slot = .ok region) {data : Bytes}
    (fits : data.length ≤ region.capacity) : (container.fill slot data).2.Named index := by
  have here := (liveRegion_eq_ok_iff.mp live).2.2
  have moved : Named { container with file := container.file.write region.offset data } index := named
  have resized := setSize_eq { container with file := container.file.write region.offset data }
    here rfl data.length
  rw [fill_of_fits live fits, resized]
  exact moved.setState slot nofun

theorem release (named : container.Named index) : (container.release index).1 = .ok () := by
  obtain ⟨state, user⟩ := named
  rw [release_answer, user]
  rfl

end Named

/-- Contents that would fit the slot, if it is live, are refused only where it is not, and then
nothing changes. -/
theorem fill_error_eq {slot : Nat} {data : Bytes}
    (fits : ∀ region, container.liveRegion slot = .ok region → data.length ≤ region.capacity)
    {fault : Fault} (refused : container.fill slot data = (.error fault, new)) :
    new = container := by
  cases live : container.liveRegion slot with
  | error cause =>
    unfold Container.fill Container.writer at refused
    rw [live] at refused
    cases refused
    rfl
  | ok region => cases refused.symm.trans (fill_of_fits live (fits region live))

end SlotStore.Container
