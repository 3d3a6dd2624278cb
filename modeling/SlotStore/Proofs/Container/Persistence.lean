import SlotStore.Proofs.Container.Runs

/-!
Persistence: the file of a container without unsaved changes gives the container back, and every
flush that succeeds leaves such a container behind, with guard words that agree with its slots.
-/

namespace SlotStore.Container

variable {container : Container}

/-- Opening the container's file under some settings gives the same slots but for the marks of
deletable ones, the same end of file, the same table slot and the same root. -/
def GivenBack (container : Container) (settings : ContainerSettings) : Prop :=
  ∃ opened, openFile container.file settings = (.ok opened, container.file) ∧
    opened.slots.length = container.slots.length ∧
    (∀ index : Nat, opened.slots[index]? = container.slots[index]?.map SlotState.unmarked) ∧
    opened.endOfFile = container.endOfFile ∧ opened.tableIndex = container.tableIndex ∧
    opened.root = container.root

theorem givenBack_of_clean (sound : container.Sound) (clean : container.dirty = false)
    (user : ∀ index, container.tableIndex = some index → container.root ≠ some index)
    {settings : ContainerSettings} (legal : settings.check = .ok ()) :
    container.GivenBack settings :=
  ⟨container.reloaded settings, openFile_of_clean sound clean user legal, List.length_map ..,
    fun _ => List.getElem?_map .., rfl, rfl, rfl⟩

/-- A container that can be reached is given back by its file whenever nothing is unsaved and its
root is not the table's slot. After a flush that succeeds nothing is unsaved, and both guard words
of every region are the one of its slot. -/
theorem persistence_of_reachable (reached : Reachable container) {settings : ContainerSettings}
    (legal : settings.check = .ok ()) :
    (container.dirty = false →
      (∀ index, container.tableIndex = some index → container.root ≠ some index) →
        container.GivenBack settings) ∧
      ∀ flushed, container.flush = (.ok (), flushed) → flushed.dirty = false ∧
        (∀ state ∈ flushed.slots, ∀ region, state.region? = some region →
          some (flushed.file.intAt region.leadingGuard) = state.guardWord ∧
            some (flushed.file.intAt region.trailingGuard) = state.guardWord ∧
              (0 < flushed.file.intAt region.leadingGuard ↔ state.isLive = true)) ∧
        ((∀ index, flushed.tableIndex = some index → flushed.root ≠ some index) →
          flushed.GivenBack settings) := by
  refine ⟨fun clean user => givenBack_of_clean reached.sound clean user legal, ?_⟩
  intro flushed stored
  have clean := (flush_ok reached.sound stored).1
  have sound : flushed.Sound := by
    have after := reached.sound.flush
    rw [stored] at after
    exact after
  obtain ⟨_, laid, _⟩ := sound.laid
  refine ⟨clean, ?_, fun user => givenBack_of_clean sound clean user legal⟩
  intro state member region held
  obtain ⟨index, found⟩ := List.mem_iff_getElem?.mp member
  obtain ⟨guard, word, _, _, _, sign⟩ :=
    SlotState.guardWord_of_legal held (laid.legal _ (laid.mem found held))
  obtain ⟨leading, trailing⟩ := (sound.saved clean).signed state member region guard held word
  rw [leading, trailing, word]
  exact ⟨rfl, rfl, sign⟩

theorem persistence_of_first_entry :
    ContainerSettings.check {} = .ok () ∧ ((create {}).newEntry 5).2.flush.2.dirty = false ∧
      ((create {}).newEntry 5).2.flush.2.GivenBack {} := by
  have legal : ContainerSettings.check {} = .ok () := by decide +kernel
  have reached : Reachable ((create {}).newEntry 5).2.flush.2 :=
    .step (.step (reachable_create legal) (.newEntry 5) rfl) .flush rfl
  have clean : ((create {}).newEntry 5).2.flush.2.dirty = false := by decide +kernel
  have rootless : ((create {}).newEntry 5).2.flush.2.root = none := by decide +kernel
  refine ⟨legal, clean, (persistence_of_reachable reached legal).1 clean ?_⟩
  intro index _ anchored
  rw [rootless] at anchored
  cases anchored

end SlotStore.Container
