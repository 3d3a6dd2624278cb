import SlotStore.Container.Flush
import SlotStore.Proofs.Container.Allocation

/-!
Making room for the slot table. The table's old region is released and a new one allocated, as often
as it takes; every step keeps the invariant of a dirty container and spares the live user slots.
-/

namespace SlotStore.Container

variable {container : Container}

theorem tableRegion?_eq_some_iff {region : Region} :
    container.tableRegion? = some region ↔
      ∃ index, container.tableIndex = some index ∧
        container.slots[index]? = some (.live region) := by
  unfold tableRegion?
  cases container.tableIndex with
  | none => simp
  | some index =>
    simp only [Option.some.injEq, exists_eq_left']
    split
    · rename_i held found
      rw [found]
      simp
    · rename_i other
      simp only [reduceCtorEq, false_iff]
      exact fun found => other region found

theorem tableFits_iff :
    container.tableFits = true ↔ ∃ index region, container.tableIndex = some index ∧
      container.slots[index]? = some (.live region) ∧
      container.slots.length * SlotRecord.width ≤ region.capacity := by
  unfold tableFits
  rw [Option.any_eq_true]
  simp only [tableRegion?_eq_some_iff, decide_eq_true_eq]
  constructor
  · rintro ⟨region, ⟨index, reserved, here⟩, fits⟩
    exact ⟨index, region, reserved, here, fits⟩
  · rintro ⟨index, region, reserved, here, fits⟩
    exact ⟨region, ⟨index, reserved, here⟩, fits⟩

theorem releaseTable_cases (sound : container.Sound) :
    (container.tableIndex = none ∧ container.releaseTable = container) ∨
      ∃ index region, container.tableIndex = some index ∧
        container.slots[index]? = some (.live region) ∧ container.releaseTable = { container with
          slots := container.slots.set index (.free region false), tableIndex := none } := by
  cases reserved : container.tableIndex with
  | none =>
    refine Or.inl ⟨rfl, ?_⟩
    cases container
    cases reserved
    rfl
  | some index =>
    obtain ⟨region, here⟩ := sound.table index reserved
    have table : container.tableRegion? = some region :=
      tableRegion?_eq_some_iff.mpr ⟨index, reserved, here⟩
    refine Or.inr ⟨index, region, rfl, here, ?_⟩
    simp only [releaseTable, reserved, table]

theorem Sound.releaseTable (sound : container.Sound) (dirty : container.dirty = true) :
    container.releaseTable.Sound := by
  rcases releaseTable_cases sound with ⟨_, same⟩ | ⟨index, region, _, here, released⟩
  · rw [same]
    exact sound
  · obtain ⟨_, oldLaid, _⟩ := sound.laid
    rw [released]
    refine sound.dirtied (fun lost laid => laid.restate here rfl ?_) ?_ rfl (List.length_set ..) dirty
    · intro held holds
      cases holds
      exact oldLaid.size_le here rfl
    · intro other reserved
      cases reserved

theorem Spares.releaseTable (sound : container.Sound) (index : Nat) :
    Spares index container container.releaseTable := by
  rcases releaseTable_cases sound with ⟨_, same⟩ | ⟨other, region, reserved, _, released⟩
  · rw [same]
    exact Spares.refl index container
  · intro held live
    obtain ⟨nonzero, free, here⟩ := liveRegion_eq_ok_iff.mp live
    have different : other ≠ index := fun same => free (same ▸ reserved)
    rw [released]
    refine ⟨liveRegion_eq_ok_iff.mpr ⟨nonzero, by simp, ?_⟩, rfl⟩
    simp [List.getElem?_set_ne different, here]

@[simp] theorem releaseTable_root (container : Container) :
    container.releaseTable.root = container.root := by
  unfold releaseTable
  split <;> rfl

@[simp] theorem releaseTable_tableIndex (container : Container) :
    container.releaseTable.tableIndex = none := by
  unfold releaseTable
  split <;> rfl

@[simp] theorem releaseTable_dirty (container : Container) :
    container.releaseTable.dirty = container.dirty := by
  unfold releaseTable
  split <;> rfl

/-- One move of the slot table: an allocation out of the released container, whose slot becomes the
table's if there is one. -/
theorem moveTable_cases (container : Container) :
    ∃ size,
      (∃ fault, container.releaseTable.newEntry size =
          (.error fault, (container.releaseTable.newEntry size).2) ∧
        container.moveTable = (.error fault, (container.releaseTable.newEntry size).2)) ∨
      ∃ index, container.releaseTable.newEntry size =
          (.ok index, (container.releaseTable.newEntry size).2) ∧
        container.moveTable = (.ok (),
          { (container.releaseTable.newEntry size).2 with tableIndex := some index }) := by
  unfold moveTable
  simp only
  split <;> rename_i made
  · exact ⟨_, Or.inl ⟨_, by rw [made], by rw [made]⟩⟩
  · exact ⟨_, Or.inr ⟨_, by rw [made], by rw [made]⟩⟩

/-- What room for the slot table is made with: the invariant of a dirty container, and live user
slots that are spared. -/
structure Moved (old new : Container) : Prop where
  sound : new.Sound
  dirty : new.dirty = true
  root : new.root = old.root
  spares : ∀ index, Spares index old new

theorem Moved.refl (sound : container.Sound) (dirty : container.dirty = true) :
    Moved container container :=
  ⟨sound, dirty, rfl, fun index => Spares.refl index container⟩

theorem Moved.trans {first second third : Container} (left : Moved first second)
    (right : Moved second third) : Moved first third :=
  ⟨right.sound, right.dirty, right.root.trans left.root,
    fun index => (left.spares index).trans (right.spares index)⟩

theorem moved_moveTable (sound : container.Sound) (dirty : container.dirty = true) :
    Moved container container.moveTable.2 := by
  have released := sound.releaseTable dirty
  obtain ⟨size, ⟨_, _, refused⟩ | ⟨index, made, moved⟩⟩ := container.moveTable_cases
  · obtain ⟨_, root, still⟩ := newEntry_frame container.releaseTable size
    rw [refused]
    exact {
      sound := released.newEntry size
      dirty := still (by simpa using dirty)
      root := by simpa using root
      spares := fun index =>
        (Spares.releaseTable sound index).trans (Spares.newEntry released size index) }
  · obtain ⟨_, root, _⟩ := newEntry_frame container.releaseTable size
    obtain ⟨fresh, _, stillDirty, region, here, _⟩ := newEntry_ok released made
    rw [moved]
    exact {
      sound := by
        refine (released.newEntry size).dirtied (fun lost laid => laid) ?_ rfl rfl stillDirty
        intro other reserved
        cases reserved
        exact ⟨region, here⟩
      dirty := stillDirty
      root := by simpa using root
      spares := by
        intro user held live
        obtain ⟨stillLive, same⟩ := Spares.releaseTable sound user held live
        obtain ⟨again, sameAgain⟩ := Spares.newEntry released size user held stillLive
        obtain ⟨nonzero, _, found⟩ := liveRegion_eq_ok_iff.mp again
        have old := (liveRegion_eq_ok_iff.mp stillLive).2.2
        have different : some index ≠ some user := by
          intro equal
          cases equal
          exact fresh held old
        exact ⟨liveRegion_eq_ok_iff.mpr ⟨nonzero, different, found⟩, sameAgain.trans same⟩ }

section

variable {motive : Container → Prop} (move : ∀ before : Container, motive before →
  motive before.moveTable.2)

include move

theorem of_settleTable (start : motive container) (budget : Nat) :
    motive (container.settleTable budget).2 := by
  induction budget generalizing container with
  | zero => exact start
  | succ budget ih =>
    have once := move container start
    unfold settleTable
    split
    · exact start
    · split
      · rename_i refused
        rw [refused] at once
        exact once
      · rename_i moved
        rw [moved] at once
        exact ih once

/-- What moves of the slot table and changes of sizes keep, and what is a matter of the slots and the
end of the file, holds after a flush. -/
theorem of_flush
    (resize : ∀ (before : Container) (index size : Nat), motive before →
      motive (before.setSize index size))
    (congr : ∀ before after : Container, after.slots = before.slots →
      after.tableIndex = before.tableIndex → after.endOfFile = before.endOfFile →
        motive before → motive after)
    (start : motive container) : motive container.flush.2 := by
  have ensured := of_settleTable move start (SlotTable.indexLimit + 2)
  unfold flush ensureTable
  split
  · exact start
  · split
    · rename_i refused
      rw [refused] at ensured
      exact ensured
    · rename_i settled done
      rw [done] at ensured
      split
      · exact ensured
      · split
        · rename_i index region _ _
          have resized := resize settled index (settled.slots.length * SlotRecord.width) ensured
          exact congr (settled.setSize index (settled.slots.length * SlotRecord.width)) _
            rfl rfl rfl resized
        · exact ensured

end

/-- However often the table moves, each move builds on a container that is sound and dirty. -/
theorem moved_settleTable (sound : container.Sound) (dirty : container.dirty = true)
    (budget : Nat) : Moved container (container.settleTable budget).2 ∧
      ∀ {done}, (container.settleTable budget).1 = .ok done →
        (container.settleTable budget).2.tableFits = true := by
  induction budget generalizing container with
  | zero => exact ⟨Moved.refl sound dirty, fun refused => nomatch refused⟩
  | succ budget ih =>
    have once := moved_moveTable sound dirty
    unfold settleTable
    split
    · rename_i fits
      exact ⟨Moved.refl sound dirty, fun _ => fits⟩
    · split
      · rename_i refused
        rw [refused] at once
        exact ⟨once, fun failed => nomatch failed⟩
      · rename_i moved
        rw [moved] at once
        obtain ⟨again, fits⟩ := ih once.sound once.dirty
        exact ⟨once.trans again, fits⟩

/-- The table is not settled only where some number would be too large, or the moves run out. -/
theorem overflow_of_settleTable {budget : Nat} {fault : Fault} {new : Container}
    (refused : container.settleTable budget = (.error fault, new)) :
    ∃ excess, fault = .overflow excess := by
  induction budget generalizing container with
  | zero =>
    cases refused
    exact ⟨_, rfl⟩
  | succ budget ih =>
    unfold settleTable at refused
    split at refused
    · cases refused
    · split at refused
      · rename_i cause left moved
        cases refused
        obtain ⟨size, ⟨_, failed, same⟩ | ⟨_, _, same⟩⟩ := container.moveTable_cases
        · cases moved.symm.trans same
          exact overflow_of_newEntry failed
        · cases moved.symm.trans same
      · exact ih refused

theorem moved_ensureTable (sound : container.Sound) (dirty : container.dirty = true) :
    Moved container container.ensureTable.2 ∧
      ∀ {done}, container.ensureTable.1 = .ok done → container.ensureTable.2.tableFits = true :=
  moved_settleTable sound dirty _

end SlotStore.Container
