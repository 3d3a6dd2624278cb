import SlotStore.Container.Flush
import SlotStore.Proofs.Layout

/-!
What holds of every container: its regions tile the file, the slot table's own slot is live, the
root is an index of the table, and a container that is not dirty is stored in its file. Beside the
invariant stands the frame of an operation, the live user slots that it spares.
-/

namespace SlotStore.Container

/-- The file holds the slot table, the guards and the header as the container has them. -/
structure Saved (container : Container) : Prop where
  header : container.file.slice 0 Header.width = container.header.encode
  table : ∃ index region, container.tableIndex = some index ∧
    container.slots[index]? = some (.live region) ∧ container.tableOffset = region.offset ∧
    container.slots.length * SlotRecord.width ≤ region.capacity ∧
    container.file.slice region.offset (container.slots.length * SlotRecord.width) =
      container.records.flatMap SlotRecord.encode
  counted : container.recordedSlots = container.slots.length
  limited : container.slots.length < SlotTable.indexLimit
  signed : ∀ state ∈ container.slots, ∀ region guard,
    state.region? = some region → state.guardWord = some guard →
    container.file.intAt region.leadingGuard = guard ∧
      container.file.intAt region.trailingGuard = guard

/-- The invariant of containers. A region without a slot is left behind only where an allocation
found every slot index taken. -/
structure Sound (container : Container) : Prop where
  laid : ∃ lost, Laid container.file container.slots lost container.endOfFile ∧
    (lost ≠ [] → container.slots.length = SlotTable.indexLimit)
  table : ∀ index, container.tableIndex = some index →
    ∃ region, container.slots[index]? = some (.live region)
  root : ∀ index, container.root = some index → 0 < index ∧ index < container.slots.length
  limited : container.slots.length ≤ SlotTable.indexLimit
  saved : container.dirty = false → container.Saved

/-- An operation spares an index when a live user slot there keeps its region and every byte of
it. -/
def Spares (index : Nat) (old new : Container) : Prop :=
  ∀ region, old.liveRegion index = .ok region → new.liveRegion index = .ok region ∧
    new.file.slice region.offset region.capacity = old.file.slice region.offset region.capacity

theorem Spares.refl (index : Nat) (container : Container) : Spares index container container :=
  fun _ live => ⟨live, rfl⟩

theorem Spares.trans {index : Nat} {first second third : Container}
    (left : Spares index first second) (right : Spares index second third) :
    Spares index first third := by
  intro region live
  obtain ⟨still, same⟩ := left region live
  obtain ⟨again, sameAgain⟩ := right region still
  exact ⟨again, sameAgain.trans same⟩

theorem slotOf_eq_ok_iff {container : Container} {index : Nat} {state : SlotState} :
    container.slotOf index = .ok state ↔
      index ≠ 0 ∧ container.tableIndex ≠ some index ∧ container.slots[index]? = some state ∧
        state ≠ .unused := by
  unfold slotOf
  split
  · rename_i zero
    simp [zero]
  · rename_i nonzero
    split
    · rename_i reserved
      simp [reserved]
    · rename_i free
      split
      · rename_i absent
        simp [absent]
      · rename_i unused
        simp only [unused, Option.some.injEq, reduceCtorEq, false_iff, not_and]
        rintro _ _ rfl
        simp
      · rename_i held used found
        simp only [found, Except.ok.injEq, Option.some.injEq]
        constructor
        · rintro rfl
          exact ⟨nonzero, free, rfl, used⟩
        · exact fun facts => facts.2.2.1

theorem liveRegion_eq_ok_iff {container : Container} {index : Nat} {region : Region} :
    container.liveRegion index = .ok region ↔
      index ≠ 0 ∧ container.tableIndex ≠ some index ∧
        container.slots[index]? = some (.live region) := by
  have user (state : SlotState) : container.slotOf index = .ok state ↔ _ := slotOf_eq_ok_iff
  unfold liveRegion
  constructor
  · intro live
    split at live
    · cases live
    · rename_i held found
      cases live
      obtain ⟨nonzero, free, here, _⟩ := (user _).mp found
      exact ⟨nonzero, free, here⟩
    · cases live
  · rintro ⟨nonzero, free, here⟩
    rw [(user (.live region)).mpr ⟨nonzero, free, here, by simp⟩]

theorem liveRegion_congr {old new : Container} (slots : new.slots = old.slots)
    (table : new.tableIndex = old.tableIndex) (index : Nat) :
    new.liveRegion index = old.liveRegion index := by
  simp only [liveRegion, slotOf, slots, table]

theorem Sound.filled {container : Container} (sound : container.Sound) : container.slots ≠ [] := by
  obtain ⟨_, laid, _⟩ := sound.laid
  exact SlotTable.filled_of_sentinel laid.sentinel

/-- Whatever keeps layout, table slot, root and number of slots, and leaves the container dirty,
keeps the invariant. -/
theorem Sound.dirtied {old new : Container} (sound : old.Sound)
    (laid : ∀ lost, Laid old.file old.slots lost old.endOfFile →
      Laid new.file new.slots lost new.endOfFile)
    (table : ∀ index, new.tableIndex = some index →
      ∃ region, new.slots[index]? = some (.live region))
    (root : new.root = old.root) (length : new.slots.length = old.slots.length)
    (dirty : new.dirty = true) : new.Sound := by
  obtain ⟨lost, oldLaid, full⟩ := sound.laid
  exact {
    laid := ⟨lost, laid lost oldLaid, fun nonempty => length.trans (full nonempty)⟩
    table := table
    root := by rw [root, length]; exact sound.root
    limited := length ▸ sound.limited
    saved := fun clean => absurd (dirty.symm.trans clean) (by simp) }

/-- A slot may take another state over the same region; the table's own slot stays live. -/
theorem Sound.setState {container : Container} (sound : container.Sound) {index : Nat}
    {old new : SlotState} (found : container.slots[index]? = some old)
    (same : new.span? = old.span?)
    (fits : ∀ region, new.region? = some region → region.size ≤ region.capacity)
    (live : container.tableIndex = some index → ∃ region, new = .live region) :
    (container.setState index new).Sound := by
  refine sound.dirtied (fun lost laid => laid.restate found same fits) ?_ rfl
    (List.length_set ..) rfl
  intro other reserved
  have bound := (List.getElem?_eq_some_iff.mp found).1
  obtain ⟨region, here⟩ := sound.table other reserved
  by_cases hit : index = other
  · subst hit
    obtain ⟨fresh, rfl⟩ := live reserved
    exact ⟨fresh, by simp [Container.setState, bound]⟩
  · exact ⟨region, by simp [Container.setState, List.getElem?_set_ne hit, here]⟩

theorem Spares.setState (container : Container) {index other : Nat} (different : other ≠ index)
    (state : SlotState) : Spares index container (container.setState other state) := by
  intro region live
  obtain ⟨nonzero, free, here⟩ := liveRegion_eq_ok_iff.mp live
  refine ⟨liveRegion_eq_ok_iff.mpr ⟨nonzero, free, ?_⟩, rfl⟩
  simp [Container.setState, List.getElem?_set_ne different, here]

theorem setSize_eq (container : Container) {index : Nat} {state : SlotState} {region : Region}
    (found : container.slots[index]? = some state) (held : state.region? = some region)
    (size : Nat) :
    container.setSize index size = container.setState index
      (state.mapRegion fun region => { region with size := min size region.capacity }) := by
  unfold setSize Container.setState SlotTable.modifyRegion
  rw [List.modify_eq_set_getElem?, found]
  cases state with
  | unused => cases held
  | live region => rfl
  | free region deletable => rfl

/-- The container sees nothing of its file from the end of its regions on. -/
theorem Saved.agree {container : Container} (saved : container.Saved) {lost : List Span}
    (laid : Laid container.file container.slots lost container.endOfFile) {new : File}
    (same : File.AgreesBelow container.endOfFile container.file new) :
    Saved { container with file := new } := by
  have low := laid.first_le
  obtain ⟨index, region, reserved, here, offset, fits, stored⟩ := saved.table
  have inside := (laid.within (laid.mem here rfl)).2
  simp only [firstOffset, Span.next, Region.span] at low inside
  exact {
    header := (same.same 0 _ (by simp only [Header.width]; omega)).trans saved.header
    table := ⟨index, region, reserved, here, offset, fits,
      (same.same _ _ (by simp only; omega)).trans stored⟩
    counted := saved.counted
    limited := saved.limited
    signed := by
      intro state member region guard held word
      obtain ⟨position, found⟩ := List.mem_iff_getElem?.mp member
      have high := (laid.within (laid.mem found held)).2
      have start := (laid.within (laid.mem found held)).1
      simp only [firstOffset, Span.next, Region.span] at high start
      obtain ⟨leading, trailing⟩ := saved.signed state member region guard held word
      simp only [Region.leadingGuard, Region.trailingGuard] at leading trailing ⊢
      exact ⟨(same.intAt (by omega)).trans leading, (same.intAt (by omega)).trans trailing⟩ }

theorem Sound.agree {container : Container} (sound : container.Sound) {new : File}
    (same : File.AgreesBelow container.endOfFile container.file new) :
    Sound { container with file := new } := by
  obtain ⟨lost, laid, full⟩ := sound.laid
  exact {
    laid := ⟨lost, laid.agree same, full⟩
    table := sound.table
    root := sound.root
    limited := sound.limited
    saved := fun clean => (sound.saved clean).agree laid same }

theorem Spares.agree {container : Container} (sound : container.Sound) (index : Nat) {new : File}
    (same : File.AgreesBelow container.endOfFile container.file new) :
    Spares index container { container with file := new } := by
  intro region live
  obtain ⟨lost, laid, _⟩ := sound.laid
  obtain ⟨_, _, here⟩ := liveRegion_eq_ok_iff.mp live
  have high := (laid.within (laid.mem here rfl)).2
  simp only [Span.next, Region.span] at high
  exact ⟨live, same.same _ _ (by omega)⟩

theorem Sound.inert {container : Container} (sound : container.Sound) (appendInFlight : Bool)
    (settings : ContainerSettings) :
    Sound { container with appendInFlight := appendInFlight, settings := settings } where
  laid := sound.laid
  table := sound.table
  root := sound.root
  limited := sound.limited
  saved := fun clean =>
    have saved := sound.saved clean
    { header := saved.header
      table := saved.table
      counted := saved.counted
      limited := saved.limited
      signed := saved.signed }

end SlotStore.Container
